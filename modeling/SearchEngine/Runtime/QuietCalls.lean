import SearchEngine.Runtime.DiskRules
import SearchEngine.Runtime.UpdateTransaction

/-!
# What the commands of a runtime update leave alone

Whatever is answered, no call of a command touches the data directory itself, and
none but the publication of the manifest puts anything in the manifest's place.
So where the transaction directory is, the data directory is, and a manifest that
is there is one of this transaction.
-/

namespace SearchEngine.Runtime

open SearchEngine.Lib Coroutine

/-! ## Quiet calls -/

/-- The directories of a transaction. -/
def Place.isRoot : Place → Bool
  | .dataDir | .rollbackDir => true
  | _ => false

/-- Where a call may put a file without being the publication of the manifest. -/
def Place.isFree (place : Place) : Bool := !place.isRoot && place != .rollback .manifest

/-- The call creates no manifest and removes no directory but the transaction's. -/
def Quiet : Call → Prop
  | .createNew place | .write place _ => place.isFree = true
  | .copy _ destination => destination.isFree = true
  | .move source destination => source.isRoot = false ∧ destination.isFree = true
  | .delete place => place.isRoot = false
  | .createDirectory place => place = .rollbackDir ∨ place.isFree = true
  | _ => True

/-- A manifest that is there is one of this transaction. -/
def ValidManifest (request : UpdateRequest) (disk : Disk) : Prop :=
  ∀ content, disk.content? (.rollback .manifest) = some content →
    ∃ manifest, Valid request manifest ∧ content = .json (manifestToJson manifest)

/-- Where the transaction directory is, both directories are directories. -/
structure Orderly (request : UpdateRequest) (disk : Disk) : Prop where
  located : disk.lookup .rollbackDir = none ∨
    disk.lookup .rollbackDir = some .directory ∧ kindOf (disk.lookup .dataDir) = .directory
  manifest : ValidManifest request disk

/-- The same with a data directory, as a command has found it. -/
structure InDirectory (request : UpdateRequest) (disk : Disk) : Prop where
  dataDir : kindOf (disk.lookup .dataDir) = .directory
  rollbackDir : disk.lookup .rollbackDir = none ∨ disk.lookup .rollbackDir = some .directory
  manifest : ValidManifest request disk

section Quiet

variable {request : UpdateRequest} {disk after : Disk}

theorem Orderly.inDirectory (orderly : Orderly request disk) (directory : kindOf (disk.lookup .dataDir) = .directory) :
    InDirectory request disk :=
  ⟨directory, orderly.located.imp id And.left, orderly.manifest⟩

theorem InDirectory.orderly (found : InDirectory request disk) : Orderly request disk :=
  ⟨found.rollbackDir.imp id fun there => ⟨there, found.dataDir⟩, found.manifest⟩

/-- Only the three places count. -/
theorem InDirectory.congr (found : InDirectory request disk)
    (dataDir : after.lookup .dataDir = disk.lookup .dataDir)
    (rollbackDir : after.lookup .rollbackDir = disk.lookup .rollbackDir)
    (manifest : after.lookup (.rollback .manifest) = disk.lookup (.rollback .manifest) ∨
      after.lookup (.rollback .manifest) = none) : InDirectory request after := by
  refine ⟨dataDir ▸ found.dataDir, rollbackDir ▸ found.rollbackDir, fun content here => ?_⟩
  rcases manifest with same | gone
  · rw [Disk.content?, same, ← Disk.content?] at here
    exact found.manifest content here
  · rw [Disk.content?, gone] at here
    cases here

theorem Place.ne_of_isRoot {place : Place} (free : place.isRoot = false) :
    Place.dataDir ≠ place ∧ Place.rollbackDir ≠ place := by
  constructor <;> (rintro rfl; cases free)

theorem Place.isRoot_of_isFree {place : Place} (free : place.isFree = true) : place.isRoot = false := by
  rw [Place.isFree, Bool.and_eq_true, Bool.not_eq_true'] at free
  exact free.1

theorem Place.ne_of_isFree {place : Place} (free : place.isFree = true) : Place.rollback .manifest ≠ place := by
  rw [Place.isFree, Bool.and_eq_true, bne_iff_ne] at free
  exact Ne.symm free.2

theorem InDirectory.insert (found : InDirectory request disk) {place : Place} (free : place.isFree = true)
    (node : Node) : InDirectory request (disk.insert place node) := by
  obtain ⟨dataDir, rollbackDir⟩ := Place.ne_of_isRoot (Place.isRoot_of_isFree free)
  exact found.congr (AList.lookup_insert_ne dataDir) (AList.lookup_insert_ne rollbackDir)
    (.inl (AList.lookup_insert_ne (Place.ne_of_isFree free)))

theorem InDirectory.erase (found : InDirectory request disk) {place : Place} (free : place.isRoot = false) :
    InDirectory request (disk.erase place) := by
  obtain ⟨dataDir, rollbackDir⟩ := Place.ne_of_isRoot free
  refine found.congr (AList.lookup_erase_ne dataDir) (AList.lookup_erase_ne rollbackDir) ?_
  by_cases here : place = .rollback .manifest
  · subst here
    exact .inr (AList.lookup_erase _ _)
  · exact .inl (AList.lookup_erase_ne (Ne.symm here))

/-- A quiet call keeps the directories and creates no manifest. -/
theorem InDirectory.next (found : InDirectory request disk) {call : Call} (quiet : Quiet call) (answer : Answer call) :
    InDirectory request (Disk.next disk call answer) := by
  cases call with
  | createNew place =>
      cases answer with
      | created => exact found.insert quiet _
      | «exists» => exact found
      | failed => exact found
  | copy source destination =>
      rw [Disk.next]
      split
      · exact found.insert quiet _
      · exact found
  | write place content => exact found.insert quiet _
  | move source destination =>
      cases answer with
      | false => exact found
      | true =>
          rw [Disk.next]
          split
          · exact (found.erase quiet.1).insert quiet.2 _
          · exact found
  | delete place =>
      cases answer with
      | false => exact found
      | true => exact found.erase quiet
  | createDirectory place =>
      cases answer with
      | created =>
          rcases quiet with rfl | free
          · refine ⟨?_, .inr (AList.lookup_insert disk), fun content here => ?_⟩
            · rw [Disk.next, AList.lookup_insert_ne (by decide)]
              exact found.dataDir
            · rw [Disk.next, Disk.content?_insert_ne (by decide)] at here
              exact found.manifest content here
          · exact found.insert free _
      | «exists» => exact found
      | failed => exact found
  | removeDirectory =>
      cases answer with
      | false => exact found
      | true =>
          refine ⟨?_, .inl (AList.lookup_erase _ _), fun content here => ?_⟩
          · rw [Disk.next, AList.lookup_erase_ne (by decide)]
            exact found.dataDir
          · rw [Disk.next, Disk.content?, AList.lookup_erase_ne (by decide), ← Disk.content?] at here
            exact found.manifest content here
  | classify place => exact found
  | openExisting place => exact found
  | list => exact found
  | read place => exact found
  | stagingNumbers => exact found
  | transactionNumbers => exact found

/-- The contract under which every answer is possible. -/
abbrev anyContract (safe : Disk → Prop) : Contract Call Answer Disk := osContract (fun _ _ _ => True) safe

/-- A program of quiet calls keeps the directories. -/
theorem quiet_meets {Thrown Result : Type} {program : Coroutine Call Answer Thrown Result}
    {returns : Result → Prop} (makes : program.Makes Quiet returns) (found : InDirectory request disk) :
    program.Meets (anyContract (Orderly request))
      (fun outcome after => InDirectory request after ∧ ∀ result, outcome = .ok result → returns result) disk :=
  makes.meets (fun _ _ _ found => found.orderly) (fun _ _ answer quiet _ found => found.next quiet answer) found

end Quiet

/-! ## The helpers -/

/-- The program makes quiet calls only. -/
abbrev IsQuiet {Thrown Result : Type} (program : Coroutine Call Answer Thrown Result) : Prop :=
  program.Makes Quiet fun _ => True

section Helpers

variable {place source destination : Place} {owned : Owned} {label failure : String} {content : Content}

theorem makes_ask {call : Call} (quiet : Quiet call) : IsQuiet (ask call) := ⟨quiet, fun _ => trivial⟩

theorem isQuiet_bind {Thrown First Result : Type} {first : Coroutine Call Answer Thrown First}
    {next : First → Coroutine Call Answer Thrown Result} (quiet : IsQuiet first)
    (follows : ∀ result, IsQuiet (next result)) : IsQuiet (first >>= next) :=
  quiet.bind fun result _ => follows result

theorem isQuiet_requireRegularFile : IsQuiet (requireRegularFile place label) :=
  .call trivial fun kind => by cases kind <;> trivial

theorem isQuiet_requireDirectory : IsQuiet (requireDirectory place label) :=
  .call trivial fun kind => by cases kind <;> trivial

theorem isQuiet_openExistingFile : IsQuiet (openExistingFile place) :=
  .call trivial fun opened => by cases opened <;> trivial

theorem isQuiet_createNewFile (free : place.isFree = true) : IsQuiet (createNewFile place) :=
  .call free fun creation => by cases creation <;> trivial

theorem isQuiet_copyHandleToHandle (free : destination.isFree = true) :
    IsQuiet (copyHandleToHandle source destination) :=
  .call free fun transfer => by cases transfer <;> trivial

theorem isQuiet_writeAll (free : place.isFree = true) : IsQuiet (writeAll place content) :=
  .call free fun transfer => by cases transfer <;> trivial

theorem isQuiet_moveFile (leaves : source.isRoot = false) (free : destination.isFree = true) :
    IsQuiet (moveFile source destination failure) :=
  .call ⟨leaves, free⟩ fun moved => by cases moved <;> trivial

/-- A staging name is found, if any. -/
theorem makes_uniqueStagingPath {directory : FileName → Place} :
    (uniqueStagingPath directory).Makes Quiet fun name => ∃ p t s, name = .staging p t s := by
  rw [uniqueStagingPath]
  induction 64 with
  | zero => trivial
  | succ attempts ih =>
      refine .call trivial fun numbers => .call trivial fun kind => ?_
      cases kind with
      | missing => exact ⟨_, _, _, rfl⟩
      | file => exact ih
      | directory => exact ih
      | reparse => exact ih
      | other => exact ih

theorem isQuiet_stageAndAtomicallyReplace (free : destination.isFree = true) :
    IsQuiet (stageAndAtomicallyReplace source destination .data) := by
  have staged : IsQuiet (replaceThroughStaging source destination .data) := by
    refine makes_uniqueStagingPath.bind fun staging found => ?_
    obtain ⟨processId, tickCount, sequence, rfl⟩ := found
    refine isQuiet_bind isQuiet_openExistingFile fun _ => isQuiet_bind (isQuiet_createNewFile rfl) fun _ => ?_
    refine isQuiet_bind (isQuiet_bind (isQuiet_copyHandleToHandle rfl) fun _ => isQuiet_moveFile rfl free).attempt
      fun outcome => ?_
    cases outcome with
    | ok _ => trivial
    | error what => exact .call rfl fun _ => trivial
  refine isQuiet_bind isQuiet_requireRegularFile fun _ => .call trivial fun kind => ?_
  cases kind with
  | missing => exact staged
  | file => exact staged
  | directory => trivial
  | reparse => trivial
  | other => trivial

theorem makes_keep {Result : Type} {task : Task Result} {returns : Result → Prop}
    (makes : task.Makes Quiet returns) : (keep task owned).Makes Quiet fun result => returns result.1 :=
  makes.mapThrown.bind fun _ returned => returned

theorem IsQuiet.keep {Result : Type} {task : Task Result} (quiet : IsQuiet task) : IsQuiet (keep task owned) :=
  makes_keep quiet

/-- One step after another, whatever is owned in between. -/
theorem isQuiet_then {First Result : Type} {first : OwnedTask First} {rest : First → OwnedTask Result}
    (quiet : IsQuiet (first owned)) (follows : ∀ result owned, IsQuiet (rest result owned)) :
    IsQuiet ((first >>= rest) owned) :=
  isQuiet_bind quiet fun result => follows result.1 result.2

theorem isQuiet_createOwnedFile {name : FileName} (free : (Place.rollback name).isFree = true) :
    IsQuiet (createOwnedFile name owned) :=
  isQuiet_then (isQuiet_createNewFile free).keep fun _ _ => trivial

theorem isQuiet_copyFileCreateNew {name : FileName} (free : (Place.rollback name).isFree = true) :
    IsQuiet (copyFileCreateNew source name owned) :=
  isQuiet_then isQuiet_requireRegularFile.keep fun _ _ => isQuiet_then isQuiet_openExistingFile.keep fun _ _ =>
    isQuiet_then (isQuiet_createOwnedFile free) fun _ _ => (isQuiet_copyHandleToHandle free).keep

theorem isQuiet_publish {name : FileName} (free : (Place.rollback name).isFree = true) :
    IsQuiet (publish name content failure owned) := by
  refine (makes_keep makes_uniqueStagingPath).bind fun result found => ?_
  obtain ⟨staging, between⟩ := result
  obtain ⟨processId, tickCount, sequence, rfl⟩ := found
  refine isQuiet_then (isQuiet_createOwnedFile rfl) fun _ _ => isQuiet_then (isQuiet_writeAll rfl).keep fun _ _ => ?_
  exact isQuiet_then (isQuiet_moveFile rfl free).keep fun _ _ => trivial

theorem isQuiet_createDirectoryExclusive : IsQuiet createDirectoryExclusive := by
  refine .call (.inl rfl) fun creation => ?_
  cases creation with
  | created => exact .call trivial fun kind => by cases kind <;> trivial
  | «exists» => trivial
  | failed => trivial

theorem isQuiet_deleteIfRegularFile (leaves : place.isRoot = false) : IsQuiet (deleteIfRegularFile place) := by
  refine .call trivial fun kind => ?_
  cases kind with
  | file => exact ⟨leaves, fun _ => trivial⟩
  | missing => trivial
  | directory => trivial
  | reparse => trivial
  | other => trivial

theorem isQuiet_listDirectory : IsQuiet listDirectory :=
  .call trivial fun entries => by cases entries <;> trivial

theorem isQuiet_deleteTransactionFiles {expected : List FileName} : IsQuiet (deleteTransactionFiles expected) := by
  have deleted : ∀ names, IsQuiet (deleteEach names) := by
    intro names
    induction names with
    | nil => trivial
    | cons name names ih =>
        refine isQuiet_bind (isQuiet_deleteIfRegularFile rfl) fun deleted => ?_
        cases deleted with
        | true => exact ih
        | false => trivial
  refine isQuiet_bind isQuiet_requireDirectory fun _ => isQuiet_bind isQuiet_listDirectory fun entries => ?_
  split
  · trivial
  · exact isQuiet_bind (deleted expected) fun _ => .call trivial fun removed => by cases removed <;> trivial

theorem isQuiet_bestEffortDeleteCreatedDirectory : IsQuiet (bestEffortDeleteCreatedDirectory owned) := by
  have deleted : IsQuiet (deleteOwned owned) := by
    fun_induction deleteOwned owned with
    | case1 => trivial
    | case2 names ih => exact ih
    | case3 names ih => exact ih
    | case4 names name _ _ ih => exact isQuiet_bind (isQuiet_deleteIfRegularFile rfl) fun _ => ih
  have created : IsQuiet (deleteCreated owned) := by
    refine isQuiet_bind isQuiet_listDirectory fun entries => ?_
    split
    · trivial
    · refine isQuiet_bind deleted fun _ => isQuiet_bind isQuiet_listDirectory fun remaining => ?_
      split
      · exact .call trivial fun _ => trivial
      · trivial
  refine .call trivial fun kind => ?_
  cases kind with
  | directory => exact isQuiet_bind created.attempt fun _ => trivial
  | missing => trivial
  | file => trivial
  | reparse => trivial
  | other => trivial

theorem IsQuiet.exitCode {body : Task Unit} (quiet : IsQuiet body) : IsQuiet (exitCode body) :=
  isQuiet_bind quiet.attempt fun outcome => by cases outcome <;> trivial

end Helpers

/-! ## The steps of the commands -/

section Steps

variable {request : UpdateRequest} {file : ManagedFile} {owned : Owned}

theorem isQuiet_readPhase : IsQuiet readPhase := by
  refine .call trivial fun kind => ?_
  cases kind with
  | file => exact .call trivial fun content => by cases content <;> trivial
  | missing => trivial
  | directory => trivial
  | reparse => trivial
  | other => trivial

theorem isQuiet_writePhase {phase : String} : IsQuiet (writePhase phase owned) := by
  refine isQuiet_then (IsQuiet.keep (makes_ask trivial)) fun kind between => ?_
  cases kind with
  | missing => exact isQuiet_then (isQuiet_createOwnedFile rfl) fun _ _ => (isQuiet_writeAll rfl).keep
  | file => exact isQuiet_publish rfl
  | directory => exact isQuiet_publish rfl
  | reparse => exact isQuiet_publish rfl
  | other => exact isQuiet_publish rfl

theorem isQuiet_writeMarker : IsQuiet (writeMarker owned) :=
  isQuiet_then (isQuiet_createOwnedFile rfl) fun _ _ => (isQuiet_writeAll rfl).keep

theorem makes_makeTransactionId : makeTransactionId.Makes Quiet fun transactionId => transactionId ≠ [] :=
  .call trivial fun numbers => by
    change _ ≠ []
    simp [hex8]

theorem isQuiet_snapshotManagedFile : IsQuiet (snapshotManagedFile file owned) := by
  refine isQuiet_then (IsQuiet.keep (makes_ask trivial)) fun kind between => ?_
  cases kind with
  | file => exact isQuiet_then (isQuiet_copyFileCreateNew rfl) fun _ _ => trivial
  | missing => trivial
  | directory => trivial
  | reparse => trivial
  | other => trivial

theorem isQuiet_sha256File {place : Place} : IsQuiet (sha256File request place) :=
  isQuiet_bind isQuiet_openExistingFile fun _ => .call trivial fun content => by cases content <;> trivial

theorem isQuiet_inspectIgnore : IsQuiet (inspectIgnore request owned) := by
  refine isQuiet_then (IsQuiet.keep (makes_ask trivial)) fun kind between => ?_
  cases kind with
  | missing => exact isQuiet_then isQuiet_sha256File.keep fun _ _ => trivial
  | file => trivial
  | directory => trivial
  | reparse => trivial
  | other => trivial

theorem isQuiet_restoreManagedFile {existed : Bool} : IsQuiet (restoreManagedFile file existed) := by
  have removed : IsQuiet (removeManagedFile file) := by
    refine .call trivial fun kind => ?_
    cases kind with
    | file => exact .call rfl fun deleted => by cases deleted <;> trivial
    | missing => trivial
    | directory => trivial
    | reparse => trivial
    | other => trivial
  rw [restoreManagedFile]
  split
  · exact isQuiet_bind isQuiet_requireRegularFile fun _ => isQuiet_stageAndAtomicallyReplace rfl
  · exact removed

theorem isQuiet_restoreIgnore {manifest : TransactionManifest} : IsQuiet (restoreIgnore request manifest) := by
  rw [restoreIgnore]
  split
  · trivial
  · refine .call trivial fun kind => ?_
    cases kind with
    | file =>
        refine isQuiet_bind isQuiet_sha256File.attempt fun outcome => ?_
        cases outcome with
        | error what => trivial
        | ok actual =>
            change IsQuiet (if _ then _ else _ : Task Unit)
            split
            · trivial
            · exact .call rfl fun deleted => by cases deleted <;> trivial
    | missing => trivial
    | directory => trivial
    | reparse => trivial
    | other => trivial

theorem isQuiet_restoreAndRecord {manifest : TransactionManifest} : IsQuiet (restoreAndRecord request manifest) := by
  have restored : IsQuiet (restoreAllManaged request manifest) :=
    isQuiet_bind isQuiet_restoreManagedFile fun _ => isQuiet_bind isQuiet_restoreManagedFile fun _ =>
      isQuiet_bind isQuiet_restoreManagedFile fun _ => isQuiet_restoreIgnore
  exact isQuiet_bind restored fun _ => isQuiet_bind isQuiet_writePhase.mapThrown fun _ => trivial

theorem isQuiet_replaceManaged : IsQuiet replaceManaged := by
  have filled : IsQuiet fillIgnore := by
    refine isQuiet_bind (isQuiet_copyHandleToHandle rfl).attempt fun outcome => ?_
    cases outcome with
    | ok _ => trivial
    | error what => exact .call rfl fun _ => trivial
  have installed : IsQuiet installIgnoreIfMissing := by
    refine .call trivial fun kind => ?_
    cases kind with
    | missing =>
        refine isQuiet_bind isQuiet_requireRegularFile fun _ => isQuiet_bind isQuiet_openExistingFile fun _ => ?_
        refine .call rfl fun creation => ?_
        cases creation with
        | created => exact filled
        | «exists» => trivial
        | failed => trivial
    | file => trivial
    | directory => trivial
    | reparse => trivial
    | other => trivial
  have ensured : IsQuiet ensureDirectory := by
    refine .call trivial fun kind => ?_
    cases kind with
    | missing =>
        refine .call (.inr rfl) fun creation => ?_
        cases creation with
        | «exists» => exact .call trivial fun kind => by cases kind <;> trivial
        | created => trivial
        | failed => trivial
    | directory => trivial
    | file => trivial
    | reparse => trivial
    | other => trivial
  refine isQuiet_bind (isQuiet_stageAndAtomicallyReplace rfl) fun _ => ?_
  refine isQuiet_bind (isQuiet_stageAndAtomicallyReplace rfl) fun _ => ?_
  refine isQuiet_bind (isQuiet_stageAndAtomicallyReplace rfl) fun _ => ?_
  exact isQuiet_bind installed fun _ => ensured

theorem isQuiet_validateRollbackPath {mustExist : Bool} : IsQuiet (validateRollbackPath mustExist) := by
  have accepted (kind : PathKind) : IsQuiet (if mustExist then
        if kind = .directory then pure ()
        else .raise "rollback-dir must be an existing regular directory"
      else if kind = .missing then pure ()
      else .raise "rollback-dir already exists" : Task Unit) := by
    split_ifs <;> trivial
  refine .call trivial fun data => ?_
  cases data with
  | reparse => trivial
  | missing | file | directory | other =>
      refine .call trivial fun rollback => ?_
      cases rollback with
      | reparse => trivial
      | missing | file | directory | other => exact .call trivial accepted

theorem isQuiet_validateExistingTransaction : IsQuiet (validateExistingTransaction request) := by
  have parsed : ∀ text, IsQuiet (parseManifest text) := by
    intro text
    fun_cases parseManifest text <;> trivial
  refine isQuiet_bind isQuiet_validateRollbackPath fun _ => ?_
  refine isQuiet_bind (isQuiet_bind isQuiet_requireRegularFile fun _ => isQuiet_bind isQuiet_requireRegularFile
    fun _ => .call trivial parsed) fun manifest => ?_
  split <;> trivial

theorem isQuiet_rollbackFrom {phase : TransactionPhase} : IsQuiet (rollbackFrom request phase) := by
  cases phase with
  | mutationStarted => exact isQuiet_bind isQuiet_validateExistingTransaction fun _ => isQuiet_restoreAndRecord
  | absent => trivial
  | prepared => trivial
  | restored => trivial
  | unknown => trivial

theorem isQuiet_commitFrom {phase : TransactionPhase} : IsQuiet (commitFrom request phase) := by
  cases phase with
  | prepared => exact isQuiet_deleteTransactionFiles
  | mutationStarted => exact isQuiet_bind isQuiet_validateExistingTransaction fun _ => isQuiet_deleteTransactionFiles
  | restored => exact isQuiet_bind isQuiet_validateExistingTransaction fun _ => isQuiet_deleteTransactionFiles
  | absent => trivial
  | unknown => trivial

end Steps

/-! ## The commands -/

section Commands

variable {request : UpdateRequest} {disk : Disk} {owned : Owned}

/-- The postcondition of a step that stays in the directory, whatever it returns. -/
abbrev StaysIn (request : UpdateRequest) {Thrown Result : Type} (_ : Except Thrown Result) (after : Disk) : Prop :=
  InDirectory request after

theorem IsQuiet.staysIn {Thrown Result : Type} {program : Coroutine Call Answer Thrown Result}
    (quiet : IsQuiet program) (found : InDirectory request disk) :
    program.Meets (anyContract (Orderly request)) (StaysIn request) disk :=
  (quiet_meets quiet found).mono fun _ _ ended => ended.1

theorem IsQuiet.then_staysIn {First Result : Type} {first : Task First} {rest : First → Task Result}
    (quiet : IsQuiet first) (found : InDirectory request disk)
    (follows : ∀ result after, InDirectory request after →
      (rest result).Meets (anyContract (Orderly request)) (StaysIn request) after) :
    (first >>= rest).Meets (anyContract (Orderly request)) (StaysIn request) disk := by
  refine then_meets ((quiet.staysIn found).mono fun outcome after found => ?_)
  cases outcome with
  | ok result => exact follows result after found
  | error what => exact found

/-- A quiet step and what follows it. -/
theorem quiet_then_meets {First Result : Type} {first : OwnedTask First} {rest : First → OwnedTask Result}
    (quiet : IsQuiet (first owned)) (found : InDirectory request disk)
    (follows : ∀ result owned after, InDirectory request after →
      (rest result owned).Meets (anyContract (Orderly request)) (StaysIn request) after) :
    ((first >>= rest) owned).Meets (anyContract (Orderly request)) (StaysIn request) disk := by
  refine owned_then_meets ((quiet.staysIn found).mono fun outcome after found => ?_)
  cases outcome with
  | ok result => exact follows result.1 result.2 after found
  | error thrown => exact found

theorem stable_orderly : Stable Place.isStaging (Orderly request) := by
  intro before after same orderly
  refine ⟨?_, fun content here => ?_⟩
  · rw [same .rollbackDir rfl, same .dataDir rfl]
    exact orderly.located
  · rw [same.content?_eq rfl] at here
    exact orderly.manifest content here

/-- The manifest that is published is one of this transaction. -/
theorem writeManifest_orderly {manifest : TransactionManifest} (valid : Valid request manifest)
    (found : InDirectory request disk) :
    (writeManifest manifest owned).Meets (anyContract (Orderly request)) (StaysIn request) disk := by
  refine publish_meets stable_orderly found.orderly (fun _ after same published => ?_) fun _ after same => ?_
  · refine ⟨?_, ?_, fun content here => ?_⟩
    · rw [same .dataDir rfl]
      exact found.dataDir
    · rw [same .rollbackDir rfl]
      exact found.rollbackDir
    · rw [Disk.content?_eq_of_lookup published] at here
      exact ⟨manifest, valid, (Option.some.inj here).symm⟩
  · exact found.congr (same _ rfl) (same _ rfl) (.inl (same _ rfl))

theorem prepareUpdate_orderly (found : InDirectory request disk) :
    (prepareUpdate request owned).Meets (anyContract (Orderly request)) (StaysIn request) disk := by
  refine quiet_then_meets isQuiet_writeMarker found fun _ _ _ found => ?_
  refine quiet_then_meets isQuiet_writePhase found fun _ _ _ found => ?_
  refine owned_then_meets ((quiet_meets (makes_keep makes_makeTransactionId) found).mono fun outcome after ended => ?_)
  cases outcome with
  | error thrown => exact ended.1
  | ok result =>
      have identified := ended.2 result rfl
      refine quiet_then_meets isQuiet_snapshotManagedFile ended.1 fun _ _ _ found => ?_
      refine quiet_then_meets isQuiet_snapshotManagedFile found fun _ _ _ found => ?_
      refine quiet_then_meets isQuiet_snapshotManagedFile found fun _ _ _ found => ?_
      refine quiet_then_meets isQuiet_inspectIgnore found fun _ _ _ found => ?_
      refine owned_then_meets ((writeManifest_orderly ⟨rfl, identified, rfl⟩ found).mono fun outcome after found => ?_)
      cases outcome with
      | error thrown => exact found
      | ok _ => exact quiet_then_meets isQuiet_writePhase found fun _ _ _ found => found

/-- An apply that has found the data directory stays in it. -/
theorem applyUpdate_orderly (found : InDirectory request disk) :
    (applyUpdate request).Meets (anyContract (Orderly request)) (StaysIn request) disk := by
  refine Meets.attempt (isQuiet_createDirectoryExclusive.staysIn found) fun outcome after found => ?_
  cases outcome with
  | error what => exact found
  | ok _ =>
      refine then_meets (attemptOwned_meets ((prepareUpdate_orderly found).mono fun outcome prepared found => ?_))
      cases outcome with
      | error thrown => exact isQuiet_bestEffortDeleteCreatedDirectory.then_staysIn found fun _ _ found => found
      | ok result =>
          refine Meets.attempt (isQuiet_replaceManaged.staysIn found) fun outcome replaced found => ?_
          cases outcome with
          | ok _ => exact found
          | error what =>
              exact Meets.attempt (isQuiet_restoreAndRecord.staysIn found) fun _ _ found => found

/-- Every command begins with the check of the data directory. -/
theorem checked_meets {Result : Type} {rest : Unit → Task Result} {label : String} (orderly : Orderly request disk)
    (follows : InDirectory request disk → (rest ()).Meets (anyContract (Orderly request)) (StaysIn request) disk) :
    (requireDirectory .dataDir label >>= rest).Meets (anyContract (Orderly request))
      (fun _ after => Orderly request after) disk := by
  refine then_meets (requireDirectory_meets orderly (fun directory => ?_) fun _ => orderly)
  exact (follows (orderly.inDirectory directory)).mono fun _ _ found => found.orderly

theorem exitCode_orderly {body : Task Unit}
    (met : body.Meets (anyContract (Orderly request)) (fun _ after => Orderly request after) disk) :
    (exitCode body).Meets (anyContract (Orderly request)) (fun _ after => Orderly request after) disk := by
  refine Meets.attempt met fun outcome after orderly => ?_
  cases outcome with
  | ok _ => exact orderly
  | error what => exact orderly

theorem updateProgram_orderly (command : Command) (orderly : Orderly request disk) :
    (updateProgram request command).Meets (anyContract (Orderly request)) (fun _ after => Orderly request after)
      disk := by
  cases command with
  | apply =>
      refine checked_meets orderly fun found => ?_
      refine isQuiet_requireDirectory.then_staysIn found fun _ _ found => ?_
      refine isQuiet_requireRegularFile.then_staysIn found fun _ _ found => ?_
      refine isQuiet_requireRegularFile.then_staysIn found fun _ _ found => ?_
      refine isQuiet_requireRegularFile.then_staysIn found fun _ _ found => ?_
      refine isQuiet_requireRegularFile.then_staysIn found fun _ _ found => ?_
      exact isQuiet_validateRollbackPath.then_staysIn found fun _ _ found => applyUpdate_orderly found
  | rollback =>
      refine exitCode_orderly (checked_meets orderly fun found => IsQuiet.staysIn ?_ found)
      exact isQuiet_bind isQuiet_validateRollbackPath fun _ => isQuiet_bind isQuiet_readPhase fun _ =>
        isQuiet_rollbackFrom
  | commit =>
      refine exitCode_orderly (checked_meets orderly fun found => IsQuiet.staysIn ?_ found)
      exact isQuiet_bind isQuiet_validateRollbackPath fun _ => isQuiet_bind isQuiet_readPhase fun _ =>
        isQuiet_commitFrom

end Commands

theorem orderly_keeps (request : UpdateRequest) :
    Invocations.Keeps Disk.handler (updateProgram request) startable (fun _ _ _ => True)
      (fun _ disk => Orderly request disk) (fun _ _ disk => Orderly request disk) where
  meets command _ _ _ orderly := (updateProgram_orderly command orderly).mono fun _ _ after => ⟨after, after⟩
  stopped _ _ _ _ orderly := orderly

/-- In every run, whatever is answered: where the transaction directory is, the
data directory is, and a manifest that is there is one of this transaction. -/
theorem orderly_throughout (request : UpdateRequest) (before : FreshDisk) (steps : List (Invoke Command Choice)) :
    (updateRuns request).Throughout (fun s => Orderly request s.state) (.initial before.1) steps := by
  have fresh : Orderly request before.1 := by
    refine ⟨.inl ?_, fun content here => ?_⟩
    · rw [AList.lookup_eq_none]
      intro member
      have kept := List.all_eq_true.mp before.2 _ (AList.mem_keys.mp member)
      cases kept
    · rw [Disk.content?, lookup_of_fresh] at here
      cases here
  refine Invocations.throughout_of_meets (orderly_keeps request) fresh ?_ fun s invariant => ?_
  · refine Machine.Conforms.mono ?_ (Machine.conforms_of_forall (fun _ _ => trivial) _ _)
    rintro s (command | choice | _) ⟨⟩
    · trivial
    · rw [Invocations.Permits]
      split <;> trivial
    · trivial
  · cases running : s.running with
    | none =>
        rw [Invocations.Invariant, running] at invariant
        exact invariant
    | some current => exact invariant.during_of_running running

end SearchEngine.Runtime
