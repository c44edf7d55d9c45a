import SearchEngine.Runtime.DiskRules
import SearchEngine.Runtime.UpdateTransaction

/-!
# What the phase of a runtime update says about the disk

Under `prepared` and `restored` the data directory holds what it held before the
apply; under `mutation_started` and `restored`, marker and manifest come with
snapshots of what was there, as far as snapshots are left: a commit whose
attribute queries fail may have deleted them first.
-/

namespace SearchEngine.Runtime

open SearchEngine.Lib Coroutine

/-- Every managed file and `ignore.txt` are as they were before the apply. -/
def ExactData (before after : Disk) : Prop :=
  (∀ file, after.lookup (managedLive file) = before.lookup (managedLive file)) ∧
    after.lookup ignorePath = before.lookup ignorePath

/-- The phase that `readPhase` finds in a readable file. -/
def phaseOf (disk : Disk) : TransactionPhase :=
  match disk.lookup (.rollback .phase) with
  | none => .absent
  | some (.file content) => phaseOfContent content
  | some _ => .unknown

/-- What `stageAndAtomicallyReplace` accepts as a destination. -/
def CanBeReplaced (node : Option Node) : Prop := kindOf node = .missing ∨ kindOf node = .file

/-- A phase in which the manifest is asked for. -/
def NeedsManifest (phase : TransactionPhase) : Prop := phase = .mutationStarted ∨ phase = .restored

instance (phase : TransactionPhase) : Decidable (NeedsManifest phase) :=
  inferInstanceAs (Decidable (_ ∨ _))

/-- The manifest tells how things were before the apply. -/
structure Describes (request : UpdateRequest) (before : Disk) (manifest : TransactionManifest) : Prop
    extends Valid request manifest where
  existed : ∀ file, manifest.existed file = before.isFile (managedLive file)
  absent : ∀ file, before.isFile (managedLive file) = false → before.lookup (managedLive file) = none
  ignoreExisted : manifest.ignoreExisted = before.isFile ignorePath
  ignoreAbsent : before.isFile ignorePath = false → before.lookup ignorePath = none ∧
    ∃ content, before.content? .packageIgnore = some content ∧
      manifest.ignoreSha256 = request.sha256 content

/-- The snapshot of a file, where there is one, has its content of before the apply. -/
def Snapshotted (before disk : Disk) (file : ManagedFile) : Prop :=
  ∀ original kept, before.content? (managedLive file) = some original →
    disk.content? (.rollback (.snapshot file)) = some kept → kept = original

/-- The manifest is complete, and so are the snapshots that are left. -/
structure UpdateRecorded (request : UpdateRequest) (before disk : Disk) : Prop where
  manifest : ∃ manifest, Describes request before manifest ∧
    disk.content? (.rollback .manifest) = some (.json (manifestToJson manifest))
  snapshots : ∀ file, Snapshotted before disk file

/-- What holds on the disk whenever a command may stop. -/
structure UpdateSafe (request : UpdateRequest) (before disk : Disk) : Prop where
  replacements : ∀ file, disk.lookup (.replacement file) = before.lookup (.replacement file)
  packageIgnore : disk.lookup .packageIgnore = before.lookup .packageIgnore
  kinds : ∀ file, CanBeReplaced (before.lookup (managedLive file)) →
    CanBeReplaced (disk.lookup (managedLive file))
  ignoreKind : before.lookup ignorePath = none → CanBeReplaced (disk.lookup ignorePath)
  ignoreFixed : before.lookup ignorePath ≠ none → disk.lookup ignorePath = before.lookup ignorePath
  settled : phaseOf disk = .prepared ∨ phaseOf disk = .restored → ExactData before disk
  recorded : NeedsManifest (phaseOf disk) → disk.lookup (.rollback .marker) ≠ none →
    disk.lookup (.rollback .manifest) ≠ none → UpdateRecorded request before disk

/-- The crash invariant of every command; after a rollback that succeeded the data stays as it was. -/
def UpdateKept (request : UpdateRequest) (before : Disk) (restored : Prop)
    (disk : Disk) : Prop :=
  UpdateSafe request before disk ∧ (restored → ExactData before disk)

section Invariant

variable {request : UpdateRequest} {restored : Prop} {before disk after : Disk}

/-! ## Places that mean nothing -/

/-- Staging files, the logs and what no command looks at. -/
def irrelevant : Place → Bool
  | .dataDir | .rollbackDir | .replacement _ | .packageIgnore => false
  | .data (.managed _) | .data .ignore => false
  | .rollback .marker | .rollback .phase | .rollback .manifest | .rollback (.snapshot _) => false
  | _ => true

theorem irrelevant_of_isStaging (place : Place) (staging : place.isStaging = true) :
    irrelevant place = true := by
  cases place with
  | data name => cases name <;> first | rfl | cases staging
  | rollback name => cases name <;> first | rfl | cases staging
  | dataDir => cases staging
  | packageData => rfl
  | replacement file => cases staging
  | packageIgnore => cases staging
  | rollbackDir => cases staging

theorem phaseOf_congr (same : after.lookup (.rollback .phase) = disk.lookup (.rollback .phase)) :
    phaseOf after = phaseOf disk := by
  rw [phaseOf, phaseOf, same]

theorem Snapshotted.congr {file : ManagedFile} (taken : Snapshotted before disk file)
    (same : after.lookup (.rollback (.snapshot file)) = disk.lookup (.rollback (.snapshot file)) ∨
      after.lookup (.rollback (.snapshot file)) = none) : Snapshotted before after file := by
  intro original kept was now
  rcases same with same | gone
  · rw [Disk.content?, same, ← Disk.content?] at now
    exact taken original kept was now
  · rw [Disk.content?, gone] at now
    cases now

theorem UpdateRecorded.congr (recorded : UpdateRecorded request before disk)
    (manifest : after.lookup (.rollback .manifest) = disk.lookup (.rollback .manifest))
    (snapshots : ∀ file, after.lookup (.rollback (.snapshot file)) = disk.lookup (.rollback (.snapshot file)) ∨
      after.lookup (.rollback (.snapshot file)) = none) : UpdateRecorded request before after := by
  obtain ⟨found, describes, here⟩ := recorded.manifest
  refine ⟨⟨found, describes, ?_⟩, fun file => (recorded.snapshots file).congr (snapshots file)⟩
  rw [Disk.content?, manifest, ← Disk.content?, here]

theorem ExactData.congr (old : ExactData before disk)
    (managed : ∀ file, after.lookup (managedLive file) = disk.lookup (managedLive file))
    (ignore : after.lookup ignorePath = disk.lookup ignorePath) : ExactData before after :=
  ⟨fun file => (managed file).trans (old.1 file), ignore.trans old.2⟩

/-- The invariant looks at nothing irrelevant. -/
theorem UpdateKept.sameBut (kept : UpdateKept request before restored disk)
    (same : SameBut irrelevant disk after) : UpdateKept request before restored after := by
  obtain ⟨safe, done⟩ := kept
  have phase : phaseOf after = phaseOf disk := phaseOf_congr (same _ rfl)
  have managed : ∀ file, after.lookup (managedLive file) = disk.lookup (managedLive file) :=
    fun file => same _ rfl
  have ignore : after.lookup ignorePath = disk.lookup ignorePath := same _ rfl
  refine ⟨⟨fun file => (same _ rfl).trans (safe.replacements file),
    (same _ rfl).trans safe.packageIgnore, fun file able => managed file ▸ safe.kinds file able,
    fun gone => ignore ▸ safe.ignoreKind gone, fun there => ignore.trans (safe.ignoreFixed there),
    fun ended => ?_, fun needs marker manifest => ?_⟩, fun was => (done was).congr managed ignore⟩
  · rw [phase] at ended
    exact (safe.settled ended).congr managed ignore
  · rw [phase] at needs
    rw [same _ rfl] at marker manifest
    exact (safe.recorded needs marker manifest).congr (same _ rfl) fun file => .inl (same _ rfl)

/-- Staging files mean nothing. -/
theorem stable_updateKept : Stable Place.isStaging (UpdateKept request before restored) :=
  fun _ _ same kept => kept.sameBut (same.mono irrelevant_of_isStaging)

/-! ## Changing the data under `mutation_started` -/

/-- What an apply may change in the data directory. -/
def Changeable (before : Disk) (place : Place) : Prop :=
  (∃ file, place = managedLive file) ∨ place = ignorePath ∧ before.lookup ignorePath = none

/-- The transaction has started to mutate, and everything is recorded. -/
structure Mutating (request : UpdateRequest) (before : Disk) (restored : Prop)
    (disk : Disk) : Prop where
  kept : UpdateKept request before restored disk
  phase : phaseOf disk = .mutationStarted
  recorded : UpdateRecorded request before disk

theorem orStaging_eq_false {place other : Place} (notStaging : other.isStaging = false)
    (different : other ≠ place) : orStaging place other = false := by
  rw [orStaging, notStaging, Bool.false_or]
  exact beq_eq_false_iff_ne.mpr different

theorem Mutating.sameBut (mutating : Mutating request before restored disk)
    (same : SameBut irrelevant disk after) : Mutating request before restored after :=
  ⟨mutating.kept.sameBut same, (phaseOf_congr (same _ rfl)).trans mutating.phase,
    mutating.recorded.congr (same _ rfl) fun _ => .inl (same _ rfl)⟩

theorem Mutating.staging (mutating : Mutating request before restored disk)
    (same : SameBut Place.isStaging disk after) : Mutating request before restored after :=
  mutating.sameBut (same.mono irrelevant_of_isStaging)

/-- One place of the data changes, together with staging files; after a rollback
that succeeded it can only become what it was. -/
theorem Mutating.change {place : Place} (mutating : Mutating request before restored disk)
    (changeable : Changeable before place) (same : SameBut (orStaging place) disk after)
    (kind : CanBeReplaced (after.lookup place))
    (old : restored → after.lookup place = before.lookup place) :
    Mutating request before restored after := by
  obtain ⟨safe, done⟩ := mutating.kept
  have inData : ∃ name, place = .data name := by
    rcases changeable with ⟨file, rfl⟩ | ⟨rfl, _⟩
    · exact ⟨_, rfl⟩
    · exact ⟨_, rfl⟩
  obtain ⟨changed, rfl⟩ := inData
  have elsewhere : ∀ place, place.isStaging = false → (∀ name, place ≠ .data name) →
      after.lookup place = disk.lookup place :=
    fun place quiet outside => same _ (orStaging_eq_false quiet (outside changed))
  have rollback : ∀ name, (Place.rollback name).isStaging = false →
      after.lookup (.rollback name) = disk.lookup (.rollback name) :=
    fun name quiet => elsewhere _ quiet fun _ wrong => nomatch wrong
  have managed : ∀ file, managedLive file ≠ .data changed →
      after.lookup (managedLive file) = disk.lookup (managedLive file) :=
    fun file different => same _ (orStaging_eq_false rfl different)
  have phase : phaseOf after = .mutationStarted := (phaseOf_congr (rollback _ rfl)).trans mutating.phase
  have recorded : UpdateRecorded request before after :=
    mutating.recorded.congr (rollback _ rfl) fun file => .inl (rollback _ rfl)
  refine ⟨⟨⟨fun file => ?_, ?_, fun file able => ?_, fun gone => ?_, fun there => ?_, fun ended => ?_,
    fun _ _ _ => recorded⟩, fun was => ⟨fun file => ?_, ?_⟩⟩, phase, recorded⟩
  · exact (elsewhere (.replacement file) rfl fun _ wrong => nomatch wrong).trans (safe.replacements file)
  · exact (elsewhere .packageIgnore rfl fun _ wrong => nomatch wrong).trans safe.packageIgnore
  · by_cases here : managedLive file = .data changed
    · exact here ▸ kind
    · exact managed file here ▸ safe.kinds file able
  · by_cases here : ignorePath = .data changed
    · exact here ▸ kind
    · rw [same _ (orStaging_eq_false rfl here)]
      exact safe.ignoreKind gone
  · have different : ignorePath ≠ .data changed := by
      intro here
      rcases changeable with ⟨file, wrong⟩ | ⟨_, gone⟩
      · cases here.trans wrong
      · exact there gone
    exact (same _ (orStaging_eq_false rfl different)).trans (safe.ignoreFixed there)
  · rw [phase] at ended
    rcases ended with wrong | wrong <;> cases wrong
  · by_cases here : managedLive file = .data changed
    · rw [here]
      exact old was
    · exact (managed file here).trans ((done was).1 file)
  · by_cases here : ignorePath = .data changed
    · rw [here]
      exact old was
    · exact (same _ (orStaging_eq_false rfl here)).trans (done was).2

/-- The data is as it was, and the phase is set to `restored`. -/
theorem Mutating.recordRestored (mutating : Mutating request before restored disk)
    (data : ExactData before disk) (same : SameBut (orStaging (.rollback .phase)) disk after)
    (phase : phaseOf after = .restored) :
    UpdateKept request before restored after ∧ ExactData before after := by
  have safe := mutating.kept.1
  have dataAfter : ExactData before after := data.congr (fun _ => same _ rfl) (same _ rfl)
  have recorded : UpdateRecorded request before after :=
    mutating.recorded.congr (same _ rfl) fun _ => .inl (same _ rfl)
  refine ⟨⟨⟨fun file => (same _ rfl).trans (safe.replacements file),
    (same _ rfl).trans safe.packageIgnore, fun file able => ?_, fun gone => ?_, fun there => ?_,
    fun _ => dataAfter, fun _ _ _ => recorded⟩, fun _ => dataAfter⟩, dataAfter⟩
  · rw [same (managedLive file) rfl]
    exact safe.kinds file able
  · rw [same ignorePath rfl]
    exact safe.ignoreKind gone
  · exact (same ignorePath rfl).trans (safe.ignoreFixed there)

/-! ## Before the mutation -/

/-- Nothing but the rollback directory and staging files has changed. -/
def Untouched (before disk : Disk) : Prop := SameBut duringPreparation before disk

theorem Untouched.sameData (untouched : Untouched before disk) : ExactData before disk :=
  ⟨fun _ => untouched _ rfl, untouched _ rfl⟩

/-- Nothing is replaced, and the phase does not ask for a manifest. -/
structure Undone (before disk : Disk) : Prop where
  untouched : Untouched before disk
  phase : ¬ NeedsManifest (phaseOf disk)

/-- An untouched disk is safe if it is recorded where it must be. -/
theorem Untouched.kept (untouched : Untouched before disk)
    (recorded : NeedsManifest (phaseOf disk) → UpdateRecorded request before disk) :
    UpdateKept request before restored disk := by
  refine ⟨⟨fun _ => untouched _ rfl, untouched _ rfl, fun file able => ?_,
    fun gone => .inl ?_, fun _ => untouched _ rfl, fun _ => untouched.sameData, fun needs _ _ => recorded needs⟩,
    fun _ => untouched.sameData⟩
  · rw [untouched (managedLive file) rfl]
    exact able
  · rw [untouched ignorePath rfl, gone]
    rfl

theorem Undone.kept (undone : Undone before disk) : UpdateKept request before restored disk :=
  undone.untouched.kept fun needs => absurd needs undone.phase

/-- Another file of the rollback directory appears. -/
theorem Undone.insert (undone : Undone before disk) {name : FileName} (other : name ≠ .phase) (node : Node) :
    Undone before (disk.insert (.rollback name) node) := by
  have phase : phaseOf (disk.insert (.rollback name) node) = phaseOf disk :=
    phaseOf_congr (AList.lookup_insert_ne (by simp [Ne.symm other]))
  exact ⟨undone.untouched.trans (sameBut_insert rfl disk node), phase ▸ undone.phase⟩

/-- The phase is as it was, or its file is gone. -/
theorem phaseOf_lost (lost : Lost disk after) : phaseOf after = phaseOf disk ∨ phaseOf after = .absent := by
  refine (lost (.rollback .phase)).imp phaseOf_congr fun gone => ?_
  rw [phaseOf, gone.2]

theorem shrinks_undone : Shrinks (Undone before) := by
  intro disk after lost undone
  refine ⟨undone.untouched.trans (lost.sameBut.mono fun place inside => ?_), ?_⟩
  · exact duringPreparation_of_inRollback inside
  · rcases phaseOf_lost lost with same | absent
    · rw [same]
      exact undone.phase
    · rw [absent]
      decide

theorem Undone.sameBut (undone : Undone before disk) (same : SameBut Place.isStaging disk after) :
    Undone before after := by
  refine ⟨undone.untouched.trans (same.mono fun _ => duringPreparation_of_isStaging), ?_⟩
  rw [phaseOf_congr (same _ rfl)]
  exact undone.phase

/-- A phase file that was not written to its end. -/
theorem not_needsManifest_take (count : Nat) :
    ¬ NeedsManifest (phaseOfContent ((phaseContent kPhasePrepared).take count)) := by
  by_cases short : count < 9
  · have all : ∀ count < 9, ¬ NeedsManifest (phaseOfContent ((phaseContent kPhasePrepared).take count)) := by
      decide +kernel
    exact all count short
  · have whole : (phaseContent kPhasePrepared).take count = phaseContent kPhasePrepared := by
      rw [phaseContent, Content.take, List.take_of_length_le]
      exact Nat.le_trans (by decide) (Nat.not_lt.mp short)
    rw [whole]
    decide +kernel

theorem Undone.insertPhase (undone : Undone before disk) {content : Content}
    (quiet : ¬ NeedsManifest (phaseOfContent content)) :
    Undone before (disk.insert (.rollback .phase) (.file content)) := by
  refine ⟨undone.untouched.trans (sameBut_insert rfl disk _), ?_⟩
  rw [phaseOf, AList.lookup_insert]
  exact quiet

/-- The snapshots of the files are complete, and the phase is `prepared`. -/
structure Snapshotting (before disk : Disk) (taken : ManagedFile → Prop) : Prop where
  undone : Undone before disk
  phase : phaseOf disk = .prepared
  snapshots : ∀ file, taken file → Snapshotted before disk file

/-! ## Deletion -/

/-- What is lost in the rollback directory changes no data, and no snapshot that is left. -/
theorem shrinks_updateKept : Shrinks (UpdateKept request before restored) := by
  rintro disk after lost ⟨safe, done⟩
  have managed : ∀ file, after.lookup (managedLive file) = disk.lookup (managedLive file) :=
    fun _ => lost.sameBut _ rfl
  have ignore : after.lookup ignorePath = disk.lookup ignorePath := lost.sameBut _ rfl
  have phase : phaseOf after ≠ .absent → phaseOf after = phaseOf disk := (phaseOf_lost lost).resolve_right
  refine ⟨⟨fun file => (lost.sameBut _ rfl).trans (safe.replacements file),
    (lost.sameBut _ rfl).trans safe.packageIgnore, fun file able => managed file ▸ safe.kinds file able,
    fun gone => ignore ▸ safe.ignoreKind gone, fun there => ignore.trans (safe.ignoreFixed there),
    fun ended => ?_, fun needs marker manifest => ?_⟩, fun was => (done was).congr managed ignore⟩
  · have same : phaseOf after = phaseOf disk := phase (by rcases ended with now | now <;> rw [now] <;> decide)
    exact (safe.settled (same ▸ ended)).congr managed ignore
  · have same : phaseOf after = phaseOf disk := phase (by rcases needs with now | now <;> rw [now] <;> decide)
    have manifestSame := lost.lookup_eq_of_ne_none manifest
    refine (safe.recorded (same ▸ needs) (lost.lookup_eq_of_ne_none marker ▸ marker)
      (manifestSame ▸ manifest)).congr manifestSame fun file => (lost _).imp id And.right

end Invariant

end SearchEngine.Runtime
