import SearchEngine.Runtime.QuietCalls
import SearchEngine.Runtime.SmoothRuns
import SearchEngine.Runtime.UpdateRecovery

/-!
# Which runtime updates can be finished

A commit deletes a transaction directory only if everything in it is expected in
its phase, and a rollback needs what it restores from. A directory that a stopped
command has left can be finished, by rollbacks until one returns success and then
a commit, if and only if it is accepted in this sense already: rollbacks neither
add to its objects nor remove any.
-/

namespace SearchEngine.Runtime

open SearchEngine.Lib Coroutine

/-! ## The property and its condition -/

/-- The disk after a rollback in which every call succeeds. -/
def rollbackOnce (request : UpdateRequest) (disk : Disk) : Disk :=
  (Disk.smoothly (rollbackCommand request) disk).2

/-- Rollbacks until one returns success, then a commit, finish the transaction. -/
def Finishable (request : UpdateRequest) (disk : Disk) : Prop :=
  ∃ attempts restored finished, Returns (rollbackCommand request) ((rollbackOnce request)^[attempts] disk) 0 restored ∧
    Returns (commitCommand request) restored 0 finished ∧ finished.lookup .rollbackDir = none

/-- The manifest that is stored. -/
def storedManifest (disk : Disk) : Option TransactionManifest :=
  match disk.content? (.rollback .manifest) with
  | some (.json root) => (manifestOfJson root).toOption
  | _ => none

/-- Marker and manifest are there, and nothing but the files of `expectedTransactionFiles`. -/
def documented (disk : Disk) (manifest : TransactionManifest) : Bool :=
  disk.isFile (.rollback .marker) && allExpected (expectedTransactionFiles manifest) disk.listing

/-- Nothing but a file stands where the managed file belongs, and its snapshot is
there if it existed. -/
def restorable (disk : Disk) (manifest : TransactionManifest) (file : ManagedFile) : Bool :=
  (kindOf (disk.lookup (managedLive file)) == .missing || disk.isFile (managedLive file)) &&
    (!manifest.existed file || disk.isFile (.rollback (.snapshot file)))

/-- Under `prepared` there is nothing but marker and phase; under
`mutation_started` and `restored` it is documented, and under `mutation_started`
every managed file can be restored; there is no other phase. -/
def accepts (disk : Disk) : Bool :=
  match phaseOf disk with
  | .prepared => allExpected preparedSchemaFiles disk.listing
  | .mutationStarted => (storedManifest disk).any fun manifest => documented disk manifest &&
      (restorable disk manifest .settings && restorable disk manifest .oem && restorable disk manifest .endpoint)
  | .restored => (storedManifest disk).any fun manifest => documented disk manifest
  | .absent | .unknown => false

/-- Between the commands, a transaction directory can be finished exactly if it is accepted. -/
def FinishesIfAccepted (request : UpdateRequest) (s : Invocations Command Call Answer String Nat Disk) : Prop :=
  s.running = none → s.state.lookup .rollbackDir ≠ none → (Finishable request s.state ↔ accepts s.state = true)

section Completion

variable {request : UpdateRequest} {disk after : Disk} {manifest : TransactionManifest} {file : ManagedFile}

/-! ## Reading -/

/-- A transaction directory between the commands. -/
structure LeftBehind (request : UpdateRequest) (disk : Disk) : Prop where
  orderly : Orderly request disk
  directory : disk.lookup .rollbackDir = some .directory

theorem LeftBehind.dataDir (left : LeftBehind request disk) : kindOf (disk.lookup .dataDir) = .directory := by
  rcases left.orderly.located with gone | ⟨_, directory⟩
  · exact absurd (gone.symm.trans left.directory) (by simp)
  · exact directory

theorem LeftBehind.rollbackDir (left : LeftBehind request disk) :
    kindOf (disk.lookup .rollbackDir) = .directory := by
  rw [left.directory]
  rfl

/-- Only the data has changed, and the phase. -/
def OutsideData (disk after : Disk) : Prop :=
  ∀ place, (∀ name, place ≠ .data name) → place ≠ .rollback .phase → after.lookup place = disk.lookup place

theorem LeftBehind.congr (left : LeftBehind request disk) (outside : OutsideData disk after) :
    LeftBehind request after := by
  have dataDir : after.lookup .dataDir = disk.lookup .dataDir := outside _ (by simp) (by simp)
  have rollbackDir : after.lookup .rollbackDir = disk.lookup .rollbackDir := outside _ (by simp) (by simp)
  have manifest : after.lookup (.rollback .manifest) = disk.lookup (.rollback .manifest) :=
    outside _ (by simp) (by simp)
  have found := (left.orderly.inDirectory left.dataDir).congr dataDir rollbackDir (.inl manifest)
  exact ⟨found.orderly, rollbackDir.trans left.directory⟩

theorem storedManifest_congr (outside : OutsideData disk after) : storedManifest after = storedManifest disk := by
  rw [storedManifest, storedManifest, Disk.content?, outside _ (by simp) (by simp), ← Disk.content?]

/-- What is stored is the text of the manifest. -/
theorem content?_of_storedManifest (left : LeftBehind request disk) (stored : storedManifest disk = some manifest) :
    Valid request manifest ∧ disk.content? (.rollback .manifest) = some (.json (manifestToJson manifest)) := by
  cases here : disk.content? (.rollback .manifest) with
  | none =>
      rw [storedManifest, here] at stored
      cases stored
  | some content =>
      obtain ⟨found, valid, rfl⟩ := left.orderly.manifest content here
      rw [storedManifest, here] at stored
      change (manifestOfJson (manifestToJson found)).toOption = some manifest at stored
      rw [manifestOfJson_toJson valid] at stored
      obtain rfl := Option.some.inj stored
      exact ⟨valid, rfl⟩

theorem exists_storedManifest (left : LeftBehind request disk) (isFile : disk.isFile (.rollback .manifest) = true) :
    ∃ manifest, storedManifest disk = some manifest := by
  obtain ⟨content, here⟩ := Disk.exists_content? (beq_iff_eq.mp isFile)
  obtain ⟨manifest, valid, rfl⟩ := left.orderly.manifest content here
  refine ⟨manifest, ?_⟩
  rw [storedManifest, here]
  change (manifestOfJson (manifestToJson manifest)).toOption = some manifest
  rw [manifestOfJson_toJson valid]
  rfl

theorem ne_none_of_isFile {place : Place} (isFile : disk.isFile place = true) : disk.lookup place ≠ none := by
  intro gone
  rw [Disk.isFile, gone] at isFile
  cases isFile

theorem smooth_validateRollbackPath (left : LeftBehind request disk) :
    Returns (validateRollbackPath true) disk () disk :=
  Returns.bind (smooth_classify left.dataDir) (Returns.bind (smooth_classify left.rollbackDir)
    (Returns.bind (smooth_classify left.rollbackDir) Returns.pure))

theorem smooth_readPhase : Returns readPhase disk (phaseOf disk) disk := by
  rw [phaseOf]
  cases here : disk.lookup (.rollback .phase) with
  | none => exact Returns.bind (smooth_classify (kindOf_eq_missing.mpr here)) Returns.pure
  | some node =>
      have kind : kindOf (disk.lookup (.rollback .phase)) = kindOf (some node) := by rw [here]
      cases node with
      | file content =>
          exact Returns.bind (smooth_classify kind)
            (Returns.bind (smooth_read (Disk.content?_eq_of_lookup here)) Returns.pure)
      | directory => exact Returns.bind (smooth_classify kind) Returns.pure
      | reparse => exact Returns.bind (smooth_classify kind) Returns.pure
      | other => exact Returns.bind (smooth_classify kind) Returns.pure

/-- With marker and manifest the transaction is validated. -/
theorem smooth_validateExistingTransaction (left : LeftBehind request disk)
    (marker : disk.isFile (.rollback .marker) = true) (stored : storedManifest disk = some manifest) :
    Returns (validateExistingTransaction request) disk manifest disk := by
  obtain ⟨valid, here⟩ := content?_of_storedManifest left stored
  have loaded : Returns loadManifest disk manifest disk := by
    refine Returns.bind (smooth_requireRegularFile marker) ?_
    refine Returns.bind (smooth_requireRegularFile (isFile_of_content? here)) (Returns.bind (smooth_read here) ?_)
    rw [parseManifest_toJson valid]
    exact Returns.pure
  refine Returns.bind (smooth_validateRollbackPath left) (Returns.bind loaded ?_)
  rw [if_pos valid.dataDir]
  exact Returns.pure

/-- Without one of them it is not. -/
theorem throws_validateExistingTransaction
    (undocumented : ¬ (disk.isFile (.rollback .marker) = true ∧ disk.isFile (.rollback .manifest) = true)) :
    Throws (validateExistingTransaction request) disk := by
  refine throws_of_meets (then_meets (validateRollbackPath_meets trivial ?_ fun what => ⟨⟨what, rfl⟩, rfl⟩))
  refine then_meets (then_meets (requireRegularFile_meets trivial (fun _ marker => ?_) fun what => ⟨⟨what, rfl⟩, rfl⟩))
  refine then_meets (requireRegularFile_meets trivial (fun _ manifest => ?_) fun what => ⟨⟨what, rfl⟩, rfl⟩)
  exact absurd ⟨isFile_of_content? marker, isFile_of_content? manifest⟩ undocumented

/-- The transaction is validated, or the validation throws and nothing is accepted. -/
theorem validated_or (left : LeftBehind request disk) :
    (∃ manifest, storedManifest disk = some manifest ∧ disk.isFile (.rollback .marker) = true ∧
      Returns (validateExistingTransaction request) disk manifest disk) ∨
    (∀ manifest, storedManifest disk = some manifest → disk.isFile (.rollback .marker) = false) ∧
      Throws (validateExistingTransaction request) disk := by
  cases marker : disk.isFile (.rollback .marker) with
  | false =>
      refine .inr ⟨fun _ _ => rfl, throws_validateExistingTransaction fun both => ?_⟩
      exact absurd (marker.symm.trans both.1) (by decide)
  | true =>
      cases stored : storedManifest disk with
      | some manifest =>
          exact .inl ⟨manifest, rfl, rfl, smooth_validateExistingTransaction left marker stored⟩
      | none =>
          refine .inr ⟨fun _ wrong => (nomatch wrong), throws_validateExistingTransaction fun both => ?_⟩
          obtain ⟨manifest, there⟩ := exists_storedManifest left both.2
          exact absurd (stored.symm.trans there) (by simp)

/-! ## Commit -/

/-- An undisturbed commit deletes what is documented, and leaves the rest in place. -/
theorem smooth_deleteRecorded (left : LeftBehind request disk) :
    ((storedManifest disk).any (documented disk) = true → ∃ finished, Returns (do
      let manifest ← validateExistingTransaction request
      deleteTransactionFiles (expectedTransactionFiles manifest) : Task Unit) disk () finished ∧
        finished.lookup .rollbackDir = none) ∧
    ((storedManifest disk).any (documented disk) ≠ true → Throws (do
      let manifest ← validateExistingTransaction request
      deleteTransactionFiles (expectedTransactionFiles manifest) : Task Unit) disk) := by
  rcases validated_or left with ⟨manifest, stored, marker, validated⟩ | ⟨unmarked, throws⟩
  · rw [stored, Option.any_some, documented, marker, Bool.true_and]
    refine ⟨fun expected => ?_, fun refused => validated.bind_fails (throws_deleteTransactionFiles refused)⟩
    obtain ⟨finished, deleted, gone⟩ := smooth_deleteTransactionFiles left.directory expected
    exact ⟨finished, Returns.bind validated deleted, gone⟩
  · refine ⟨fun accepted => ?_, fun _ => throws.bind⟩
    obtain ⟨manifest, stored, holds⟩ := Option.any_eq_true _ _ |>.mp accepted
    rw [documented, unmarked manifest stored] at holds
    cases holds

theorem documented_of_accepts (needs : NeedsManifest (phaseOf disk)) (accepted : accepts disk = true) :
    (storedManifest disk).any (documented disk) = true := by
  rw [accepts] at accepted
  rcases needs with phase | phase
  · rw [phase, Option.any_eq_true] at accepted
    obtain ⟨manifest, stored, holds⟩ := accepted
    exact Option.any_eq_true _ _ |>.mpr ⟨manifest, stored, (Bool.and_eq_true_iff.mp holds).1⟩
  · rw [phase] at accepted
    exact accepted

/-- An undisturbed commit deletes what is accepted. -/
theorem smooth_commitFrom (left : LeftBehind request disk) (accepted : accepts disk = true) :
    ∃ finished, Returns (commitFrom request (phaseOf disk)) disk () finished ∧
      finished.lookup .rollbackDir = none := by
  cases phase : phaseOf disk with
  | absent =>
      rw [accepts, phase] at accepted
      cases accepted
  | unknown =>
      rw [accepts, phase] at accepted
      cases accepted
  | prepared =>
      rw [accepts, phase] at accepted
      exact smooth_deleteTransactionFiles left.directory accepted
  | mutationStarted => exact (smooth_deleteRecorded left).1 (documented_of_accepts (.inl phase) accepted)
  | restored => exact (smooth_deleteRecorded left).1 (documented_of_accepts (.inr phase) accepted)

theorem smooth_commitCommand (left : LeftBehind request disk) (accepted : accepts disk = true) :
    ∃ finished, Returns (commitCommand request) disk 0 finished ∧ finished.lookup .rollbackDir = none := by
  obtain ⟨finished, committed, gone⟩ := smooth_commitFrom left accepted
  refine ⟨finished, returns_exitCode ?_, gone⟩
  exact Returns.bind (smooth_requireDirectory left.dataDir)
    (Returns.bind (smooth_validateRollbackPath left) (Returns.bind smooth_readPhase committed))

/-- It throws at anything else that no rollback can change any more. -/
theorem refused_commitCommand (left : LeftBehind request disk) (settled : phaseOf disk ≠ .mutationStarted)
    (refused : accepts disk = false) : Returns (commitCommand request) disk 1 disk := by
  refine returns_exitCode_of_fails ((smooth_requireDirectory left.dataDir).bind_fails ?_)
  refine (smooth_validateRollbackPath left).bind_fails (smooth_readPhase.bind_fails ?_)
  rw [accepts] at refused
  cases phase : phaseOf disk with
  | absent => exact ⟨_, rfl⟩
  | unknown => exact ⟨_, rfl⟩
  | mutationStarted => exact absurd phase settled
  | prepared =>
      rw [phase] at refused
      exact throws_deleteTransactionFiles (by simp [refused])
  | restored =>
      rw [phase] at refused
      exact (smooth_deleteRecorded left).2 (by simp [refused])

/-! ## Restoration -/

/-- Nothing has changed but the place of a managed file. -/
def OnlyManaged (file : ManagedFile) (disk after : Disk) : Prop :=
  ∀ place, place ≠ managedLive file → after.lookup place = disk.lookup place

theorem kindOf_of_restorable (able : restorable disk manifest file = true) :
    kindOf (disk.lookup (managedLive file)) = .missing ∨ kindOf (disk.lookup (managedLive file)) = .file := by
  rw [restorable, Bool.and_eq_true, Bool.or_eq_true, beq_iff_eq, Disk.isFile, beq_iff_eq] at able
  exact able.1

/-- A file that can be restored is restored. -/
theorem smooth_restoreManagedFile (left : LeftBehind request disk) (able : restorable disk manifest file = true) :
    ∃ after, Returns (restoreManagedFile file (manifest.existed file)) disk () after ∧ OnlyManaged file disk after := by
  have replaceable := kindOf_of_restorable able
  rw [restorable, Bool.and_eq_true] at able
  cases existed : manifest.existed file with
  | true =>
      rw [existed] at able
      obtain ⟨content, snapshot⟩ := Disk.exists_content? (beq_iff_eq.mp able.2)
      obtain ⟨after, replaced, same⟩ := smooth_stageAndAtomicallyReplace snapshot (by simp) replaceable
        (by simp [managedLive, Disk.newStaging]) left.dataDir
      refine ⟨after, Returns.bind (smooth_requireRegularFile able.2) replaced, fun place other => ?_⟩
      rw [same, if_neg other]
  | false =>
      rcases replaceable with missing | isFile
      · exact ⟨disk, Returns.bind (smooth_classify missing) Returns.pure, fun _ _ => rfl⟩
      · refine ⟨disk.erase (managedLive file), Returns.bind (smooth_classify isFile) ?_, fun place other => ?_⟩
        · exact Returns.bind (smooth_delete (beq_iff_eq.mpr isFile)) Returns.pure
        · exact AList.lookup_erase_ne other

/-- Any other is refused. -/
theorem throws_restoreManagedFile (unable : restorable disk manifest file = false) :
    Throws (restoreManagedFile file (manifest.existed file)) disk := by
  have refused : ∀ {place : Place}, kindOf (disk.lookup place) ≠ .file → ∀ label,
      Throws (requireRegularFile place label) disk := by
    intro place notFile label
    cases kind : kindOf (disk.lookup place) with
    | file => exact absurd kind notFile
    | missing => exact (smooth_classify kind).bind_fails ⟨_, rfl⟩
    | directory => exact (smooth_classify kind).bind_fails ⟨_, rfl⟩
    | reparse => exact (smooth_classify kind).bind_fails ⟨_, rfl⟩
    | other => exact (smooth_classify kind).bind_fails ⟨_, rfl⟩
  rw [restorable, Bool.and_eq_false_iff] at unable
  cases existed : manifest.existed file with
  | true =>
      by_cases snapshot : disk.isFile (.rollback (.snapshot file)) = true
      · have irreplaceable := unable.resolve_right (by simp [existed, snapshot])
        rw [Bool.or_eq_false_iff, Disk.isFile] at irreplaceable
        refine (smooth_requireRegularFile snapshot).bind_fails ?_
        refine (smooth_requireRegularFile snapshot).bind_fails ?_
        cases kind : kindOf (disk.lookup (managedLive file)) with
        | missing => exact absurd (kind ▸ irreplaceable.1) (by decide)
        | file => exact absurd (kind ▸ irreplaceable.2) (by decide)
        | directory => exact (smooth_classify kind).bind_fails ⟨_, rfl⟩
        | reparse => exact (smooth_classify kind).bind_fails ⟨_, rfl⟩
        | other => exact (smooth_classify kind).bind_fails ⟨_, rfl⟩
      · exact (refused (by simpa [Disk.isFile] using snapshot) _).bind
  | false =>
      have irreplaceable := unable.resolve_right (by simp [existed])
      rw [Bool.or_eq_false_iff, Disk.isFile] at irreplaceable
      cases kind : kindOf (disk.lookup (managedLive file)) with
      | missing => exact absurd (kind ▸ irreplaceable.1) (by decide)
      | file => exact absurd (kind ▸ irreplaceable.2) (by decide)
      | directory => exact (smooth_classify kind).bind_fails ⟨_, rfl⟩
      | reparse => exact (smooth_classify kind).bind_fails ⟨_, rfl⟩
      | other => exact (smooth_classify kind).bind_fails ⟨_, rfl⟩

theorem smooth_restoreIgnore :
    ∃ after, Returns (restoreIgnore request manifest) disk () after ∧
      ∀ place, place ≠ ignorePath → after.lookup place = disk.lookup place := by
  rw [restoreIgnore]
  cases manifest.ignoreExisted with
  | true => exact ⟨disk, Returns.pure, fun _ _ => rfl⟩
  | false =>
      rw [if_neg Bool.false_ne_true]
      cases kind : kindOf (disk.lookup ignorePath) with
      | missing => exact ⟨disk, Returns.bind (smooth_classify kind) Returns.pure, fun _ _ => rfl⟩
      | directory => exact ⟨disk, Returns.bind (smooth_classify kind) Returns.pure, fun _ _ => rfl⟩
      | reparse => exact ⟨disk, Returns.bind (smooth_classify kind) Returns.pure, fun _ _ => rfl⟩
      | other => exact ⟨disk, Returns.bind (smooth_classify kind) Returns.pure, fun _ _ => rfl⟩
      | file =>
          obtain ⟨content, here⟩ := Disk.exists_content? kind
          have isFile : disk.isFile ignorePath = true := beq_iff_eq.mpr kind
          have digest : Returns (sha256File request ignorePath) disk (request.sha256 content) disk :=
            Returns.bind (smooth_openExistingFile isFile) (Returns.bind (smooth_read here) Returns.pure)
          by_cases other : manifest.ignoreSha256 = [] ∨ request.sha256 content ≠ manifest.ignoreSha256
          · refine ⟨disk, Returns.bind (smooth_classify kind) (Returns.bind digest.attempt ?_), fun _ _ => rfl⟩
            change Returns (if manifest.ignoreSha256 = [] ∨ _ then _ else _ : Task Unit) _ _ _
            rw [if_pos other]
            exact Returns.pure
          · refine ⟨disk.erase ignorePath, Returns.bind (smooth_classify kind) (Returns.bind digest.attempt ?_),
              fun place different => AList.lookup_erase_ne different⟩
            change Returns (if manifest.ignoreSha256 = [] ∨ _ then _ else _ : Task Unit) _ _ _
            rw [if_neg other]
            exact Returns.bind (smooth_delete isFile) Returns.pure

/-- Only the data has changed. -/
def OnlyData (disk after : Disk) : Prop :=
  ∀ place, (∀ name, place ≠ .data name) → after.lookup place = disk.lookup place

theorem OnlyData.outsideData (only : OnlyData disk after) : OutsideData disk after :=
  fun place outside _ => only place outside

theorem OnlyManaged.onlyData (only : OnlyManaged file disk after) : OnlyData disk after :=
  fun place outside => only place (outside _)

/-- Restoring one file changes nothing that another is restored from. -/
theorem OnlyManaged.restorable_eq {other : ManagedFile} (only : OnlyManaged file disk after) (different : other ≠ file) :
    restorable after manifest other = restorable disk manifest other := by
  have live : after.lookup (managedLive other) = disk.lookup (managedLive other) :=
    only _ (by simpa [managedLive] using different)
  have snapshot : after.lookup (.rollback (.snapshot other)) = disk.lookup (.rollback (.snapshot other)) :=
    only _ (by simp [managedLive])
  rw [restorable, restorable, Disk.isFile, Disk.isFile, live, snapshot, ← Disk.isFile, ← Disk.isFile]

/-- An undisturbed restoration of some files: it returns if all of them can be
restored, and otherwise throws with one left that cannot. -/
def Restoring (manifest : TransactionManifest) (files : List ManagedFile) (program : Task Unit) (disk : Disk) : Prop :=
  (files.all (restorable disk manifest) = true → ∃ after, Returns program disk () after ∧ OnlyData disk after) ∧
    (files.all (restorable disk manifest) = false → ∃ after, Fails program disk after ∧ OnlyData disk after ∧
      ∃ file ∈ files, restorable after manifest file = false)

/-- One file more, before the others. -/
theorem Restoring.cons {files : List ManagedFile} {rest : Task Unit} (left : LeftBehind request disk)
    (apart : file ∉ files) (follows : ∀ after, LeftBehind request after → Restoring manifest files rest after) :
    Restoring manifest (file :: files) (restoreManagedFile file (manifest.existed file) >>= fun _ => rest) disk := by
  rw [Restoring, List.all_cons]
  cases able : restorable disk manifest file with
  | false =>
      refine ⟨fun wrong => (nomatch wrong), fun _ => ⟨disk, (throws_restoreManagedFile able).bind, fun _ _ => rfl, ?_⟩⟩
      exact ⟨file, List.mem_cons_self, able⟩
  | true =>
      obtain ⟨first, restored, only⟩ := smooth_restoreManagedFile left able
      obtain ⟨returns, fails⟩ := follows first (left.congr only.onlyData.outsideData)
      have others : files.all (restorable disk manifest) = files.all (restorable first manifest) := by
        rw [Bool.eq_iff_iff, List.all_eq_true, List.all_eq_true]
        refine forall₂_congr fun other member => ?_
        rw [only.restorable_eq fun same => apart (same ▸ member)]
      rw [Bool.true_and, others]
      constructor
      · intro every
        obtain ⟨after, returned, onlyAfter⟩ := returns every
        exact ⟨after, Returns.bind restored returned, fun place outside =>
          (onlyAfter place outside).trans (only.onlyData place outside)⟩
      · intro some
        obtain ⟨after, failed, onlyAfter, unable, member, stays⟩ := fails some
        exact ⟨after, restored.bind_fails failed, fun place outside =>
          (onlyAfter place outside).trans (only.onlyData place outside), unable,
          List.mem_cons_of_mem _ member, stays⟩

theorem smooth_restoreAllManaged (left : LeftBehind request disk) :
    Restoring manifest [.settings, .oem, .endpoint] (restoreAllManaged request manifest) disk := by
  refine .cons left (by decide) fun _ left => .cons left (by decide) fun _ left => .cons left (by decide) fun _ _ => ?_
  obtain ⟨after, returned, same⟩ := @smooth_restoreIgnore request _ manifest
  exact ⟨fun _ => ⟨after, returned, fun place outside => same place (outside _)⟩, fun wrong => nomatch wrong⟩

/-! ## Rollback -/

theorem isFile_phase (needs : NeedsManifest (phaseOf disk)) : disk.isFile (.rollback .phase) = true := by
  obtain ⟨content, here⟩ := @exists_phaseFile disk
    (by rcases needs with phase | phase <;> rw [phase] <;> decide)
    (by rcases needs with phase | phase <;> rw [phase] <;> decide)
  exact isFile_of_content? (Disk.content?_eq_of_lookup here)

/-- A rollback changes no object of the rollback directory but the phase. -/
theorem documented_congr (needs : NeedsManifest (phaseOf disk)) (needsAfter : NeedsManifest (phaseOf after))
    (outside : OutsideData disk after) : documented after manifest = documented disk manifest := by
  have isFile : ∀ name, after.isFile (.rollback name) = disk.isFile (.rollback name) := by
    intro name
    by_cases phase : name = .phase
    · rw [phase, isFile_phase needs, isFile_phase needsAfter]
    · rw [Disk.isFile, Disk.isFile, outside _ (by simp) (by simp [phase])]
  have there : ∀ name, after.lookup (.rollback name) ≠ none ↔ disk.lookup (.rollback name) ≠ none := by
    intro name
    by_cases phase : name = .phase
    · rw [phase]
      exact iff_of_true (ne_none_of_isFile (isFile_phase needsAfter)) (ne_none_of_isFile (isFile_phase needs))
    · rw [outside _ (by simp) (by simp [phase])]
  rw [documented, documented, Bool.eq_iff_iff, Bool.and_eq_true, Bool.and_eq_true, isFile, allExpected_listing,
    allExpected_listing]
  simp only [isFile, there]

theorem accepts_of_started (phase : phaseOf disk = .mutationStarted) (stored : storedManifest disk = some manifest) :
    accepts disk = (documented disk manifest &&
      ([.settings, .oem, .endpoint] : List ManagedFile).all (restorable disk manifest)) := by
  rw [accepts, phase]
  simp [stored, Bool.and_assoc]

/-- The undisturbed rollback of what has been mutated. -/
theorem smooth_restoreAndRecord (left : LeftBehind request disk) (phase : phaseOf disk = .mutationStarted)
    (stored : storedManifest disk = some manifest) :
    (∃ after, Returns (restoreAndRecord request manifest) disk () after ∧ LeftBehind request after ∧
      phaseOf after = .restored ∧ accepts after = accepts disk) ∨
    ∃ after, Fails (restoreAndRecord request manifest) disk after ∧ LeftBehind request after ∧
      accepts disk = false ∧ accepts after = false := by
  obtain ⟨returns, fails⟩ := @smooth_restoreAllManaged request disk manifest left
  have accepted := accepts_of_started phase stored
  cases able : ([.settings, .oem, .endpoint] : List ManagedFile).all (restorable disk manifest) with
  | false =>
      obtain ⟨after, failed, only, file, member, unable⟩ := fails able
      have stays : phaseOf after = .mutationStarted := (phaseOf_congr (only _ (by simp))).trans phase
      have none_able : ([.settings, .oem, .endpoint] : List ManagedFile).all (restorable after manifest) = false :=
        List.all_eq_false.mpr ⟨file, member, by simp [unable]⟩
      refine .inr ⟨after, failed.bind, left.congr only.outsideData, ?_, ?_⟩
      · rw [accepted, able, Bool.and_false]
      · rw [accepts_of_started stays ((storedManifest_congr only.outsideData).trans stored), none_able, Bool.and_false]
  | true =>
      obtain ⟨data, restored, only⟩ := returns able
      have leftData := left.congr only.outsideData
      have started : phaseOf data = .mutationStarted := (phaseOf_congr (only _ (by simp))).trans phase
      have kind : kindOf (data.lookup (.rollback .phase)) = .file := beq_iff_eq.mp (isFile_phase (.inl started))
      have replaceable : kindOf (data.lookup (.rollback .phase)) ≠ .directory := by
        rw [kind]
        decide
      obtain ⟨between, after, published, same⟩ := @smooth_publish data (phaseContent kPhaseRestored) []
        .phase "cannot publish transaction phase" (by simp [Disk.newStaging]) leftData.directory replaceable
      have recorded : Returns (writePhase kPhaseRestored []) data ((), between) after :=
        Returns.owned_bind (Returns.keep (smooth_classify kind)) published
      have outside : OutsideData disk after := by
        intro place notData notPhase
        rw [same, if_neg notPhase]
        exact only place notData
      have isRestored : phaseOf after = .restored := by
        rw [phaseOf, same, if_pos rfl]
        decide +kernel
      refine .inl ⟨after, Returns.bind restored (Returns.forgetOwned recorded), left.congr outside, isRestored, ?_⟩
      rw [accepted, able, Bool.and_true, accepts, isRestored]
      simp only [storedManifest_congr outside, stored, Option.any_some]
      exact documented_congr (.inl phase) (.inr isRestored) outside

/-- How an undisturbed rollback ends. -/
structure RollsBack (request : UpdateRequest) (disk : Disk) (result : Nat) (after : Disk) : Prop where
  returns : Returns (rollbackCommand request) disk result after
  left : LeftBehind request after
  same : accepts after = accepts disk
  settled : result = 0 → phaseOf after ≠ .mutationStarted
  succeeds : accepts disk = true → result = 0

/-- A rollback that fails finds nothing accepted. -/
theorem rollsBack_of_refused (returns : Returns (rollbackCommand request) disk 1 after)
    (left : LeftBehind request after) (was : accepts disk = false) (now : accepts after = false) :
    RollsBack request disk 1 after :=
  ⟨returns, left, now.trans was.symm, fun wrong => (nomatch wrong),
    fun accepted => absurd (was.symm.trans accepted) (by decide)⟩

/-- An undisturbed rollback leaves accepted what was accepted, and nothing else. -/
theorem smooth_rollbackCommand (left : LeftBehind request disk) :
    ∃ result after, RollsBack request disk result after := by
  have returned : ∀ {after}, Returns (rollbackFrom request (phaseOf disk)) disk () after →
      Returns (rollbackCommand request) disk 0 after := fun returns =>
    returns_exitCode (Returns.bind (smooth_requireDirectory left.dataDir)
      (Returns.bind (smooth_validateRollbackPath left) (Returns.bind smooth_readPhase returns)))
  have failed : ∀ {after}, Fails (rollbackFrom request (phaseOf disk)) disk after →
      Returns (rollbackCommand request) disk 1 after := fun fails =>
    returns_exitCode_of_fails ((smooth_requireDirectory left.dataDir).bind_fails
      ((smooth_validateRollbackPath left).bind_fails (smooth_readPhase.bind_fails fails)))
  cases phase : phaseOf disk with
  | absent =>
      have unaccepted : accepts disk = false := by rw [accepts, phase]
      exact ⟨1, disk, rollsBack_of_refused (failed (by rw [phase]; exact ⟨_, rfl⟩)) left unaccepted unaccepted⟩
  | unknown =>
      have unaccepted : accepts disk = false := by rw [accepts, phase]
      exact ⟨1, disk, rollsBack_of_refused (failed (by rw [phase]; exact ⟨_, rfl⟩)) left unaccepted unaccepted⟩
  | prepared =>
      refine ⟨0, disk, returned (by rw [phase]; exact Returns.pure), left, rfl, fun _ => ?_, fun _ => rfl⟩
      rw [phase]
      decide
  | restored =>
      refine ⟨0, disk, returned (by rw [phase]; exact Returns.pure), left, rfl, fun _ => ?_, fun _ => rfl⟩
      rw [phase]
      decide
  | mutationStarted =>
      rcases validated_or left with ⟨manifest, stored, marker, validated⟩ | ⟨unmarked, throws⟩
      · rcases smooth_restoreAndRecord left phase stored with
          ⟨after, restored, leftAfter, isRestored, same⟩ | ⟨after, fails, leftAfter, was, now⟩
        · refine ⟨0, after, returned ?_, leftAfter, same, fun _ => ?_, fun _ => rfl⟩
          · rw [phase]
            exact Returns.bind validated restored
          · rw [isRestored]
            decide
        · refine ⟨1, after, rollsBack_of_refused (failed ?_) leftAfter was now⟩
          rw [phase]
          exact validated.bind_fails fails
      · have unaccepted : accepts disk = false := by
          cases stored : storedManifest disk with
          | none =>
              rw [accepts, phase, stored]
              rfl
          | some manifest => rw [accepts_of_started phase stored, documented, unmarked manifest stored]; rfl
        refine ⟨1, disk, rollsBack_of_refused (failed ?_) left unaccepted unaccepted⟩
        rw [phase]
        exact throws.bind

/-! ## Finishing -/

theorem returns_unique {result other : Nat} {final : Disk} (first : Returns (rollbackCommand request) disk result after)
    (second : Returns (rollbackCommand request) disk other final) : result = other ∧ after = final := by
  have same := first.symm.trans second
  simp only [Prod.mk.injEq, Except.ok.injEq] at same
  exact same

/-- Any number of rollbacks leaves accepted what was accepted, and nothing else. -/
theorem accepts_iterate (attempts : Nat) (left : LeftBehind request disk) :
    LeftBehind request ((rollbackOnce request)^[attempts] disk) ∧
      accepts ((rollbackOnce request)^[attempts] disk) = accepts disk := by
  induction attempts generalizing disk with
  | zero => exact ⟨left, rfl⟩
  | succ attempts ih =>
      obtain ⟨result, after, ended⟩ := smooth_rollbackCommand left
      have once : rollbackOnce request disk = after := congrArg Prod.snd ended.returns
      rw [Function.iterate_succ_apply, once]
      exact ⟨(ih ended.left).1, (ih ended.left).2.trans ended.same⟩

theorem finishable_iff (left : LeftBehind request disk) : Finishable request disk ↔ accepts disk = true := by
  constructor
  · rintro ⟨attempts, restored, finished, rolledBack, committed, _⟩
    obtain ⟨leftThere, same⟩ := accepts_iterate attempts left
    obtain ⟨result, after, ended⟩ := smooth_rollbackCommand leftThere
    obtain ⟨rfl, rfl⟩ := returns_unique ended.returns rolledBack
    cases refused : accepts disk with
    | true => rfl
    | false =>
        have failed := refused_commitCommand ended.left (ended.settled rfl) ((ended.same.trans same).trans refused)
        have wrong := failed.symm.trans committed
        simp at wrong
  · intro accepted
    obtain ⟨result, after, ended⟩ := smooth_rollbackCommand left
    obtain rfl := ended.succeeds accepted
    obtain ⟨finished, committed, gone⟩ := smooth_commitCommand ended.left (ended.same.trans accepted)
    exact ⟨0, after, finished, ended.returns, committed, gone⟩

end Completion

theorem leftBehind_of_orderly {request : UpdateRequest} {disk : Disk} (orderly : Orderly request disk)
    (there : disk.lookup .rollbackDir ≠ none) : LeftBehind request disk :=
  ⟨orderly, (orderly.located.resolve_left there).1⟩

/-- In every run of an apply followed by rollbacks and commits, each of which may
stop at any call: the transaction directory that is left can be finished exactly
if it is accepted. -/
theorem updateTransaction_finishes (request : UpdateRequest) (before : FreshDisk)
    (steps : List (Invoke Command Choice)) :
    (updateRuns request).Throughout (FinishesIfAccepted request) (.initial before.1) steps :=
  (orderly_throughout request before steps).mono fun _ orderly _ there =>
    finishable_iff (leftBehind_of_orderly orderly there)

/-- The apply stops while the staging file of its manifest lies beside marker and
phase: the phase is `prepared`, and no commit accepts the staging file. -/
theorem not_finishable_staged :
    ¬ ∀ (request : UpdateRequest) (before : FreshDisk) (steps : List (Invoke Command Choice))
      (final : Invocations Command Call Answer String Nat Disk),
      (updateRuns request).run (.initial before.1) steps = some final → final.running = none →
        final.state.lookup .rollbackDir ≠ none → Finishable request final.state := by
  intro claim
  have outcome : ((updateRuns cleanUpdate).run (.initial cleanDisk.1)
      (.start .apply :: List.replicate 26 smooth ++ [.stop])).map (fun final =>
        (final.running.isNone, kindOf (final.state.lookup .rollbackDir), phaseOf final.state,
          accepts final.state)) = some (true, .directory, .prepared, false) := by
    decide +kernel
  obtain ⟨final, done, seen⟩ := Option.map_eq_some_iff.mp outcome
  simp only [Prod.mk.injEq] at seen
  obtain ⟨idle, directory, _, refused⟩ := seen
  have there : final.state.lookup .rollbackDir ≠ none := by
    intro gone
    rw [gone] at directory
    cases directory
  have orderly := (orderly_throughout cleanUpdate cleanDisk _).final done
  have finishable := claim cleanUpdate cleanDisk _ final done (Option.isNone_iff_eq_none.mp idle) there
  have accepted := (finishable_iff (leftBehind_of_orderly orderly there)).mp finishable
  exact absurd (accepted.symm.trans refused) (by decide)

end SearchEngine.Runtime
