import SearchEngine.Runtime.Files

/-!
# The settings transaction

`settingsApplyCommand` snapshots `Settings.json` and, if it is managed, the
endpoint file, publishes a manifest and replaces both; `settingsRollbackCommand`
restores them from the snapshots and `settingsCommitCommand` deletes the
transaction directory. The texts of the paths have passed their checks.
-/

namespace SearchEngine.Runtime

open SearchEngine.Index (Byte Word)
open SearchEngine.Lib

/-- The arguments of the commands of one transaction; `manageEndpoint` tells that
`--endpoint-temp` is given to the apply. -/
structure SettingsRequest where
  dataDir : Text
  manageEndpoint : Bool

/-- `CfgManifest`. -/
structure CfgManifest where
  dataDir : Text
  settingsExisted : Bool
  endpointManaged : Bool
  endpointExisted : Bool

def settingsLive : Place := .data (.managed .settings)

def endpointLive : Place := .data (.managed .endpoint)

/-! ## The manifest -/

/-- The value that `writeCfgManifest` writes. -/
def cfgManifestToJson (m : CfgManifest) : Json :=
  .object
    [("data_dir", .string m.dataDir),
      ("settings_existed", .boolean m.settingsExisted),
      ("endpoint_managed", .boolean m.endpointManaged),
      ("endpoint_existed", .boolean m.endpointExisted)]

/-- `root.value(name, false)`. -/
def Json.flag (root : Json) (name : String) : Except String Bool :=
  match root.field? name with
  | none => .ok false
  | some (.boolean value) => .ok value
  | some _ => .error "type must be boolean"

/-- The checks of `loadCfgManifest` on the parsed value. -/
def cfgManifestOfJson (root : Json) : Except String CfgManifest := do
  match root with
  | .object _ => pure ()
  | _ => throw "cfg transaction manifest is damaged"
  let dataDir ← match root.field? "data_dir" with
    | some (.string dataDir) => pure dataDir
    | _ => throw "cfg manifest missing data_dir"
  let settingsExisted ← root.flag "settings_existed"
  let endpointManaged ← root.flag "endpoint_managed"
  let endpointExisted ← root.flag "endpoint_existed"
  pure ⟨dataDir, settingsExisted, endpointManaged, endpointExisted⟩

def writeCfgManifest (m : CfgManifest) : OwnedTask Unit :=
  publish .cfgManifest (.json (cfgManifestToJson m)) "cannot publish cfg manifest"

def loadCfgManifest : Task CfgManifest := do
  requireRegularFile (.rollback .cfgMarker) "cfg transaction marker"
  requireRegularFile (.rollback .cfgManifest) "cfg transaction manifest"
  match ← ask (.read (.rollback .cfgManifest)) with
  | some (.json root) =>
      match cfgManifestOfJson root with
      | .ok m => pure m
      | .error what => .raise what
  | _ => .raise "cfg transaction manifest is damaged"

def cfgExpectedFiles (m : CfgManifest) : List FileName :=
  ([.cfgMarker, .cfgManifest] : List FileName) ++
    (if m.settingsExisted then [.snapshot .settings] else [] : List FileName) ++
      (if m.endpointManaged && m.endpointExisted then [.snapshot .endpoint] else [] : List FileName)

/-! ## Commands -/

/-- The checks of `validateSettingsRollbackDir` on the disk. -/
def validateSettingsRollbackDir (mustExist : Bool) : Task Unit := do
  match ← ask (.classify .rollbackDir) with
  | .reparse => .raise "rollback-dir is a reparse point"
  | _ => pure ()
  let kind ← ask (.classify .rollbackDir)
  if mustExist then
    if kind = .directory then pure ()
    else .raise "rollback-dir must be an existing regular directory"
  else if kind = .missing then pure ()
  else .raise "rollback-dir already exists"

def writeCfgMarker : OwnedTask Unit := do
  createOwnedFile .cfgMarker
  keep (writeAll (.rollback .cfgMarker)
    (.bytes (Word.ofAscii "SearchEngineService settings-transaction\r\n")))

/-- The snapshot of the endpoint file, and `endpointExisted`. -/
def snapshotEndpoint (manageEndpoint : Bool) : OwnedTask Bool := do
  if manageEndpoint then
    match ← keep (ask (.classify endpointLive)) with
    | .file => do
        copyFileCreateNew endpointLive (.snapshot .endpoint)
        pure true
    | _ => pure false
  else pure false

/-- `settingsApplyCommand` up to the publication of its manifest. -/
def prepareSettings (request : SettingsRequest) : OwnedTask CfgManifest := do
  writeCfgMarker
  match ← keep (ask (.classify settingsLive)) with
  | .file => pure ()
  | _ => keep (.raise "Settings.json not found in data-dir; cannot apply config transaction")
  copyFileCreateNew settingsLive (.snapshot .settings)
  let endpointExisted ← snapshotEndpoint request.manageEndpoint
  let manifest := ⟨request.dataDir, true, request.manageEndpoint, endpointExisted⟩
  writeCfgManifest manifest
  pure manifest

/-- The atomic replacements of `settingsApplyCommand`. -/
def replaceSettings (request : SettingsRequest) : Task Unit := do
  stageAndAtomicallyReplace (.replacement .settings) settingsLive .data
  if request.manageEndpoint then
    stageAndAtomicallyReplace (.replacement .endpoint) endpointLive .data
  else pure ()

/-- What `settingsApplyCommand` restores after a failed replacement. -/
def undoSettings (manifest : CfgManifest) : Task Unit := do
  stageAndAtomicallyReplace (.rollback (.snapshot .settings)) settingsLive .data
  if manifest.endpointManaged && manifest.endpointExisted then
    stageAndAtomicallyReplace (.rollback (.snapshot .endpoint)) endpointLive .data
  else pure ()

/-- `settingsApplyCommand` from the creation of its directory on. -/
def applySettings (request : SettingsRequest) : Task Nat := do
  match ← createDirectoryExclusive.attempt with
  | .error _ => pure kApplyFailedBeforeMutation
  | .ok _ =>
      match ← attemptOwned (prepareSettings request) with
      | .error (_, owned) => do
          bestEffortDeleteCreatedDirectory owned
          pure kApplyFailedBeforeMutation
      | .ok (manifest, _) =>
          match ← (replaceSettings request).attempt with
          | .ok _ => pure 0
          | .error _ => do
              let _ ← (undoSettings manifest).attempt
              pure 1

def settingsApplyCommand (request : SettingsRequest) : Task Nat := do
  requireDirectory .dataDir "data-dir"
  requireRegularFile (.replacement .settings) "settings-temp"
  validateSettingsRollbackDir false
  if request.manageEndpoint then requireRegularFile (.replacement .endpoint) "endpoint-temp"
  else pure ()
  applySettings request

/-- The validated manifest of `settingsRollbackCommand` and `settingsCommitCommand`. -/
def openSettingsTransaction (request : SettingsRequest) : Task CfgManifest := do
  requireDirectory .dataDir "data-dir"
  validateSettingsRollbackDir true
  let manifest ← loadCfgManifest
  if manifest.dataDir = request.dataDir then pure manifest
  else .raise "cfg manifest data-dir does not match --data-dir"

/-- The endpoint file did not exist before: remove it if it was created. -/
def removeCreatedEndpoint : Task Unit := do
  match ← ask (.classify endpointLive) with
  | .file => do
      if ← ask (.delete endpointLive) then pure ()
      else .raise "failed to remove created endpoint file during rollback"
  | _ => pure ()

/-- The restorations of `settingsRollbackCommand`. -/
def restoreSettings (manifest : CfgManifest) : Task Unit := do
  if manifest.settingsExisted then
    stageAndAtomicallyReplace (.rollback (.snapshot .settings)) settingsLive .data
  else pure ()
  if manifest.endpointManaged then
    if manifest.endpointExisted then
      stageAndAtomicallyReplace (.rollback (.snapshot .endpoint)) endpointLive .data
    else removeCreatedEndpoint
  else pure ()

def settingsRollbackCommand (request : SettingsRequest) : Task Nat :=
  exitCode do
    let manifest ← openSettingsTransaction request
    restoreSettings manifest

def settingsCommitCommand (request : SettingsRequest) : Task Nat :=
  exitCode do
    let manifest ← openSettingsTransaction request
    deleteTransactionFiles (cfgExpectedFiles manifest)

/-! ## Runs -/

def settingsProgram (request : SettingsRequest) : Command → Task Nat
  | .apply => settingsApplyCommand request
  | .rollback => settingsRollbackCommand request
  | .commit => settingsCommitCommand request

/-- The runs of a settings transaction: every command may stop at every call. -/
def settingsRuns (request : SettingsRequest) :
    Machine (Invocations Command Call Answer String Nat Disk) (Invoke Command Choice) :=
  Invocations.machine Disk.handler startable (settingsProgram request)

end SearchEngine.Runtime
