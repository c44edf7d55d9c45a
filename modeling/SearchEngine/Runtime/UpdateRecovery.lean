import SearchEngine.Runtime.UpdateInvariant

/-!
# What a rollback of a runtime update restores

Every command keeps `UpdateKept`, wherever it stops. So a rollback that returns
success has found the data unchanged or has restored it. Two things have to go
right: `classifyPath` must not take a file of the data for missing because its
attributes cannot be read, and `restoreIgnore` must be able to prove that the
apply installed `ignore.txt`: a copy that was cut short has another digest and
stays.
-/

namespace SearchEngine.Runtime

open SearchEngine.Index (Word)
open SearchEngine.Lib Coroutine

/-! ## The property and its condition -/

/-- From the first rollback that returns success on, the data is as before the apply. -/
def RollbackExact (before : Disk) (s : Invocations Command Call Answer String Nat Disk) : Prop :=
  (.rollback, .returned 0) ∈ s.history → ExactData before s.state

/-- The calls with which `restoreIgnore` takes the digest of `ignore.txt`. -/
def readsIgnore : Call → Bool
  | .openExisting place | .read place => place == ignorePath
  | _ => false

/-- Where `restoreIgnore` takes the digest of `ignore.txt`, it can be read and has
the digest of the `ignore.txt` of the package. -/
def IgnoreProven (request : UpdateRequest) (before disk : Disk) (call : Call) (choice : Choice) : Prop :=
  readsIgnore call = true → choice.succeeds = true ∧
    (disk.content? ignorePath).map request.sha256 = (before.content? .packageIgnore).map request.sha256

/-- The attributes of the managed files and of `ignore.txt` are read where they are asked for. -/
def DataSeen (disk : Disk) : Call → Choice → Prop
  | .classify (.data (.managed file)), choice => disk.Seen (managedLive file) choice
  | .classify (.data .ignore), choice => disk.Seen ignorePath choice
  | _, _ => True

/-- No answer deceives a command about the data. -/
structure Undeceived (request : UpdateRequest) (before disk : Disk) (call : Call) (choice : Choice) : Prop where
  seen : DataSeen disk call choice
  proven : IgnoreProven request before disk call choice

section Recovery

variable {request : UpdateRequest} {restored : Prop} {before disk : Disk}

/-- The contract of the commands. -/
abbrev updateContract (request : UpdateRequest) (before : Disk) (restored : Prop) : Contract Call Answer Disk :=
  osContract (Undeceived request before) (UpdateKept request before restored)

theorem managedSeen {file : ManagedFile} (choice : Choice)
    (allowed : Undeceived request before disk (.classify (managedLive file)) choice) :
    disk.Seen (managedLive file) choice := allowed.seen

theorem ignoreSeen (choice : Choice) (allowed : Undeceived request before disk (.classify ignorePath) choice) :
    disk.Seen ignorePath choice := allowed.seen

/-! ## Restoration -/

/-- A file is as it was, and nothing else but staging files has changed. -/
def Restored (before disk : Disk) (place : Place) (after : Disk) : Prop :=
  SameBut (orStaging place) disk after ∧ after.lookup place = before.lookup place

theorem removeManagedFile_meets {file : ManagedFile} {post : Except String Unit → Disk → Prop}
    (mutating : Mutating request before restored disk)
    (absent : before.lookup (managedLive file) = none)
    (ended : ∀ after, Mutating request before restored after →
      Restored before disk (managedLive file) after → post (.ok ()) after)
    (thrown : ∀ what, post (.error what) disk) :
    (removeManagedFile file).Meets (updateContract request before restored) post disk := by
  refine then_meets (classify_seen_meets managedSeen mutating.kept ?_)
  cases kind : kindOf (disk.lookup (managedLive file)) with
  | missing =>
      have gone : disk.lookup (managedLive file) = before.lookup (managedLive file) :=
        (kindOf_eq_missing.mp kind).trans absent.symm
      exact ended disk mutating ⟨SameBut.refl _ _, gone⟩
  | file =>
      refine then_meets (delete_meets mutating.kept ?_ (thrown _))
      have same : SameBut (orStaging (managedLive file)) disk (disk.erase (managedLive file)) :=
        sameBut_erase (orStaging_self _) disk
      have erased : (disk.erase (managedLive file)).lookup (managedLive file) = none := AList.lookup_erase _ _
      have gone := erased.trans absent.symm
      exact ended _ (mutating.change (.inl ⟨file, rfl⟩) same (.inl (kindOf_eq_missing.mpr erased)) fun _ => gone)
        ⟨same, gone⟩
  | directory => exact thrown _
  | reparse => exact thrown _
  | other => exact thrown _

/-- A managed file is restored from its snapshot, or removed if it did not exist. -/
theorem restoreManagedFile_meets {file : ManagedFile} {post : Except String Unit → Disk → Prop}
    (mutating : Mutating request before restored disk)
    (absent : before.isFile (managedLive file) = false → before.lookup (managedLive file) = none)
    (ended : ∀ after, Mutating request before restored after →
      Restored before disk (managedLive file) after → post (.ok ()) after)
    (thrown : ∀ what after, Mutating request before restored after → post (.error what) after) :
    (restoreManagedFile file (before.isFile (managedLive file))).Meets
      (updateContract request before restored) post disk := by
  cases existed : before.isFile (managedLive file) with
  | false =>
      exact removeManagedFile_meets mutating (absent existed) ended fun what => thrown what disk mutating
  | true =>
      obtain ⟨original, was⟩ := Disk.exists_content? (beq_iff_eq.mp existed)
      refine then_meets (requireRegularFile_meets mutating.kept (fun _ _ => ?_) fun _ => thrown _ _ mutating)
      refine stageAndAtomicallyReplace_meets stable_updateKept rfl mutating.kept
        (fun content after source _ same now => ?_) fun _ _ same => thrown _ _ (mutating.staging same)
      obtain rfl := mutating.recorded.snapshots file original content was source
      have back := now.trans (Disk.lookup_eq_of_content? was).symm
      have isFile : CanBeReplaced (after.lookup (managedLive file)) := by
        rw [now]
        exact .inr rfl
      exact ended after (mutating.change (.inl ⟨file, rfl⟩) same isFile fun _ => back) ⟨same, back⟩

/-- Removing `ignore.txt` is rightful if the apply installed it. -/
theorem restoreIgnore_meets {manifest : TransactionManifest} {post : Except String Unit → Disk → Prop}
    (mutating : Mutating request before restored disk) (describes : Describes request before manifest)
    (ended : ∀ after, Mutating request before restored after → SameBut (orStaging ignorePath) disk after →
      after.lookup ignorePath = before.lookup ignorePath → post (.ok ()) after)
    (thrown : ∀ what, post (.error what) disk) :
    (restoreIgnore request manifest).Meets (updateContract request before restored) post disk := by
  have kept := mutating.kept
  have stays : disk.lookup ignorePath = before.lookup ignorePath → post (.ok ()) disk :=
    ended disk mutating (SameBut.refl _ _)
  rw [restoreIgnore]
  cases existed : before.isFile ignorePath with
  | true =>
      rw [describes.ignoreExisted, existed, if_pos rfl]
      refine stays (kept.1.ignoreFixed fun gone => ?_)
      rw [Disk.isFile, gone] at existed
      cases existed
  | false =>
      rw [describes.ignoreExisted, existed, if_neg Bool.false_ne_true]
      obtain ⟨absent, content, package, digest⟩ := describes.ignoreAbsent existed
      refine then_meets (classify_seen_meets ignoreSeen kept ?_)
      rcases kept.1.ignoreKind absent with missing | file
      · rw [missing]
        exact stays ((kindOf_eq_missing.mp missing).trans absent.symm)
      rw [file]
      obtain ⟨found, here⟩ := Disk.exists_content? file
      have readable : ∀ choice : Choice, choice.succeeds = true →
          ¬ (choice.succeeds = false ∨ disk.content? ignorePath = none) := by
        rintro choice succeeds (fails | unreadable)
        · exact absurd (succeeds.symm.trans fails) (by decide)
        · exact absurd (here.symm.trans unreadable) (by simp)
      -- whoever takes the digest finds that of the package's file
      have taken : (sha256File request ignorePath).Meets (updateContract request before restored)
          (fun outcome after => after = disk ∧ outcome = .ok manifest.ignoreSha256) disk := by
        refine then_meets (then_meets (openExisting_meets kept (fun _ _ => ?_) fun choice allowed refused => ?_))
        · refine then_meets (read_meets kept (fun choice again allowed here => ⟨rfl, ?_⟩)
            fun choice allowed refused => ?_)
          · have same := (allowed.proven rfl).2
            rw [here, package] at same
            exact congrArg Except.ok ((Option.some.inj same).trans digest.symm)
          · exact absurd refused (readable choice (allowed.proven rfl).1)
        · exact absurd refused (readable choice (allowed.proven rfl).1)
      refine Meets.attempt taken fun outcome after result => ?_
      obtain ⟨rfl, rfl⟩ := result
      change (if manifest.ignoreSha256 = [] ∨ manifest.ignoreSha256 ≠ manifest.ignoreSha256 then _ else _ :
        Task Unit).Meets _ _ _
      split
      · rename_i refused
        have long := request.digits content
        rw [← digest, refused.resolve_right (· rfl)] at long
        cases long
      · refine then_meets (delete_meets kept ?_ (thrown _))
        have same : SameBut (orStaging ignorePath) after (after.erase ignorePath) :=
          sameBut_erase (orStaging_self _) after
        have erased : (after.erase ignorePath).lookup ignorePath = none := AList.lookup_erase _ _
        have gone := erased.trans absent.symm
        exact ended _ (mutating.change (.inr ⟨rfl, absent⟩) same (.inl (kindOf_eq_missing.mpr erased))
          fun _ => gone) same gone

/-- Everything is restored. -/
theorem restoreAllManaged_meets {manifest : TransactionManifest} {post : Except String Unit → Disk → Prop}
    (mutating : Mutating request before restored disk) (describes : Describes request before manifest)
    (ended : ∀ after, Mutating request before restored after → ExactData before after →
      post (.ok ()) after)
    (thrown : ∀ what after, Mutating request before restored after → post (.error what) after) :
    (restoreAllManaged request manifest).Meets (updateContract request before restored) post disk := by
  have settings : manifest.settings = before.isFile (managedLive .settings) := describes.existed .settings
  have oem : manifest.oem = before.isFile (managedLive .oem) := describes.existed .oem
  have endpoint : manifest.endpoint = before.isFile (managedLive .endpoint) := describes.existed .endpoint
  rw [restoreAllManaged, settings, oem, endpoint]
  refine then_meets (restoreManagedFile_meets mutating (describes.absent _) (fun first mutating one => ?_) thrown)
  refine then_meets (restoreManagedFile_meets mutating (describes.absent _) (fun second mutating two => ?_) thrown)
  refine then_meets (restoreManagedFile_meets mutating (describes.absent _) (fun third mutating three => ?_) thrown)
  refine restoreIgnore_meets mutating describes (fun last mutating same ignore => ?_)
    fun what => thrown what _ mutating
  have fourth : ∀ file, last.lookup (managedLive file) = third.lookup (managedLive file) := fun _ => same _ rfl
  refine ended last mutating ⟨fun file => (fourth file).trans ?_, ignore⟩
  cases file with
  | endpoint => exact three.2
  | oem => exact (three.1 _ rfl).trans two.2
  | settings => exact ((three.1 _ rfl).trans (two.1 _ rfl)).trans one.2

/-! ## The phase -/

/-- A phase file that is there is replaced as a whole. -/
theorem publishPhase_meets {phase : String} {owned : Owned} {content : Content}
    {post : Except (String × Owned) (Unit × Owned) → Disk → Prop}
    (kept : UpdateKept request before restored disk)
    (here : disk.lookup (.rollback .phase) = some (.file content))
    (published : ∀ owned after, SameBut (orStaging (.rollback .phase)) disk after →
      phaseOf after = phaseOfContent (phaseContent phase) → post (.ok ((), owned)) after)
    (thrown : ∀ thrown after, SameBut Place.isStaging disk after → post (.error thrown) after) :
    (writePhase phase owned).Meets (updateContract request before restored) post disk := by
  refine owned_then_meets (keep_meets (classify_meets kept ?_ ?_))
  · rw [here]
    refine publish_meets stable_updateKept kept (fun owned after same now => published owned after same ?_) thrown
    rw [phaseOf, now]
  · refine owned_then_meets (createOwnedFile_meets kept (fun gone _ => ?_) fun _ => thrown _ _ (SameBut.refl _ _))
    exact absurd (gone.symm.trans here) (by simp)

theorem exists_phaseFile (present : phaseOf disk ≠ .absent) (known : phaseOf disk ≠ .unknown) :
    ∃ content, disk.lookup (.rollback .phase) = some (.file content) := by
  rw [phaseOf] at present known
  cases here : disk.lookup (.rollback .phase) with
  | none => exact absurd (by rw [here]) present
  | some node =>
      rw [here] at known
      cases node with
      | file content => exact ⟨content, rfl⟩
      | directory => exact absurd rfl known
      | reparse => exact absurd rfl known
      | other => exact absurd rfl known

/-- Restoring everything ends with the data as it was. -/
theorem restoreAndRecord_meets {manifest : TransactionManifest}
    (mutating : Mutating request before restored disk) (describes : Describes request before manifest) :
    (restoreAndRecord request manifest).Meets (updateContract request before restored)
      (fun outcome after => UpdateKept request before restored after ∧
        (outcome = .ok () → ExactData before after)) disk := by
  refine then_meets (restoreAllManaged_meets mutating describes (fun after mutating data => ?_)
    fun what after mutating => ⟨mutating.kept, fun wrong => nomatch wrong⟩)
  obtain ⟨content, here⟩ := exists_phaseFile (by rw [mutating.phase]; decide) (by rw [mutating.phase]; decide)
  refine forgetOwned_meets (publishPhase_meets mutating.kept here (fun _ final same phase => ?_)
    fun _ final same => ⟨(mutating.staging same).kept, fun wrong => nomatch wrong⟩)
  have isRestored : phaseOf final = .restored := phase.trans (by decide +kernel)
  obtain ⟨kept, data⟩ := mutating.recordRestored data same isRestored
  exact ⟨kept, fun _ => data⟩

/-! ## Rollback and commit -/

theorem validateRollbackPath_meets {safe : Disk → Prop} {mustExist : Bool}
    {permitted : Disk → Call → Choice → Prop} {post : Except String Unit → Disk → Prop} (holds : safe disk)
    (validated : post (.ok ()) disk) (thrown : ∀ what, post (.error what) disk) :
    (validateRollbackPath mustExist).Meets (osContract permitted safe) post disk := by
  have checks := @checkRollbackDir_meets permitted safe disk mustExist post holds validated thrown
  refine then_meets ⟨holds, fun kind _ => ?_⟩
  cases kind with
  | reparse => exact thrown _
  | missing => exact checks
  | file => exact checks
  | directory => exact checks
  | other => exact checks

/-- The phase is read as it is, or as absent or unknown. -/
theorem readPhase_meets {safe : Disk → Prop} {permitted : Disk → Call → Choice → Prop}
    {post : Except String TransactionPhase → Disk → Prop} (holds : safe disk)
    (found : post (.ok (phaseOf disk)) disk) (absent : post (.ok .absent) disk) (unknown : post (.ok .unknown) disk) :
    readPhase.Meets (osContract permitted safe) post disk := by
  refine then_meets (classify_meets holds ?_ absent)
  cases here : disk.lookup (.rollback .phase) with
  | none => exact absent
  | some node =>
      rw [phaseOf, here] at found
      cases node with
      | file content =>
          refine then_meets (read_meets holds (fun _ again _ there => ?_) fun _ _ _ => unknown)
          obtain rfl := Option.some.inj (there.symm.trans (Disk.content?_eq_of_lookup here))
          exact found
      | directory => exact unknown
      | reparse => exact unknown
      | other => exact unknown

/-- Who validates the transaction finds it recorded. -/
theorem validateExistingTransaction_meets {post : Except String TransactionManifest → Disk → Prop}
    (kept : UpdateKept request before restored disk) (needs : NeedsManifest (phaseOf disk))
    (validated : ∀ manifest, Describes request before manifest → UpdateRecorded request before disk →
      post (.ok manifest) disk)
    (thrown : ∀ what, post (.error what) disk) :
    (validateExistingTransaction request).Meets (updateContract request before restored) post disk := by
  refine then_meets (validateRollbackPath_meets kept ?_ thrown)
  refine then_meets (then_meets (requireRegularFile_meets kept (fun marker markerHere => ?_) fun _ => thrown _))
  refine then_meets (requireRegularFile_meets kept (fun found manifestHere => ?_) fun _ => thrown _)
  have markerThere : disk.lookup (.rollback .marker) ≠ none := by
    rw [Disk.lookup_eq_of_content? markerHere]
    exact Option.some_ne_none _
  have manifestThere : disk.lookup (.rollback .manifest) ≠ none := by
    rw [Disk.lookup_eq_of_content? manifestHere]
    exact Option.some_ne_none _
  have recorded := kept.1.recorded needs markerThere manifestThere
  obtain ⟨manifest, describes, stored⟩ := recorded.manifest
  refine then_meets (read_meets kept (fun _ content _ here => ?_) fun _ _ _ => thrown _)
  obtain rfl := Option.some.inj (stored.symm.trans here)
  change (parseManifest (some (.json (manifestToJson manifest)))).Meets _ _ _
  rw [parseManifest_toJson describes.toValid]
  change (if manifest.dataDir = request.dataDir then _ else _ : Task TransactionManifest).Meets _ _ _
  rw [if_pos describes.dataDir]
  exact validated manifest describes recorded

theorem exitCode_meets {body : Task Unit} {safe : Disk → Prop} {permitted : Disk → Call → Choice → Prop}
    {success : Disk → Prop}
    (met : body.Meets (osContract permitted safe)
      (fun outcome after => safe after ∧ (outcome = .ok () → success after)) disk) :
    (exitCode body).Meets (osContract permitted safe)
      (fun outcome after => safe after ∧ (outcome = .ok 0 → success after)) disk := by
  refine Meets.attempt met fun outcome after ended => ?_
  cases outcome with
  | ok _ => exact ⟨ended.1, fun _ => ended.2 rfl⟩
  | error what => exact ⟨ended.1, fun wrong => nomatch wrong⟩

/-- A rollback that returns success leaves the data as it was. -/
theorem rollbackCommand_meets (kept : UpdateKept request before restored disk) :
    (rollbackCommand request).Meets (updateContract request before restored)
      (fun outcome after => UpdateKept request before restored after ∧
        (outcome = .ok 0 → ExactData before after)) disk := by
  have refused : ∀ what : String, UpdateKept request before restored disk ∧
      ((.error what : Except String Unit) = .ok () → ExactData before disk) :=
    fun what => ⟨kept, fun wrong => nomatch wrong⟩
  refine exitCode_meets (then_meets (requireDirectory_meets kept (fun _ => ?_) refused))
  refine then_meets (validateRollbackPath_meets kept ?_ refused)
  refine then_meets (readPhase_meets kept ?_ (refused _) (refused _))
  change (rollbackFrom request (phaseOf disk)).Meets _ _ _
  cases phase : phaseOf disk with
  | absent => exact refused _
  | unknown => exact refused _
  | prepared => exact ⟨kept, fun _ => kept.1.settled (.inl phase)⟩
  | restored => exact ⟨kept, fun _ => kept.1.settled (.inr phase)⟩
  | mutationStarted =>
      refine then_meets (validateExistingTransaction_meets kept (.inl phase)
        (fun manifest describes recorded => ?_) refused)
      exact restoreAndRecord_meets ⟨kept, phase, recorded⟩ describes

/-- A commit changes no data. -/
theorem commitCommand_meets (kept : UpdateKept request before restored disk) :
    (commitCommand request).Meets (updateContract request before restored)
      (fun _ after => UpdateKept request before restored after) disk := by
  have deletes : ∀ names, (deleteTransactionFiles names).Meets
      (updateContract request before restored)
      (fun _ after => UpdateKept request before restored after) disk := by
    intro names
    exact deleteTransactionFiles_meets shrinks_updateKept (fun _ left => left) kept
  have body : (do
      requireDirectory .dataDir "data-dir"
      validateRollbackPath true
      let phase ← readPhase
      commitFrom request phase : Task Unit).Meets (updateContract request before restored)
      (fun _ after => UpdateKept request before restored after) disk := by
    refine then_meets (requireDirectory_meets kept (fun _ => ?_) fun _ => kept)
    refine then_meets (validateRollbackPath_meets kept ?_ fun _ => kept)
    refine then_meets (readPhase_meets kept ?_ kept kept)
    change (commitFrom request (phaseOf disk)).Meets _ _ _
    cases phase : phaseOf disk with
    | absent => exact kept
    | unknown => exact kept
    | prepared => exact deletes _
    | restored =>
        exact then_meets (validateExistingTransaction_meets kept (.inr phase) (fun _ _ _ => deletes _)
          fun _ => kept)
    | mutationStarted =>
        exact then_meets (validateExistingTransaction_meets kept (.inl phase) (fun _ _ _ => deletes _)
          fun _ => kept)
  refine Meets.attempt body fun outcome after ended => ?_
  cases outcome with
  | ok _ => exact ended
  | error what => exact ended

/-! ## Preparation -/

/-- The first phase is written; a beginning of it asks for nothing. -/
theorem writePrepared_meets {owned : Owned} {post : Except (String × Owned) (Unit × Owned) → Disk → Prop}
    (undone : Undone before disk)
    (written : ∀ owned after, Undone before after → phaseOf after = .prepared → post (.ok ((), owned)) after)
    (thrown : ∀ thrown after, Undone before after → post (.error thrown) after) :
    (writePhase kPhasePrepared owned).Meets (updateContract request before restored) post disk := by
  have kept : UpdateKept request before restored disk := undone.kept
  have quiet : ¬ NeedsManifest (phaseOfContent (phaseContent kPhasePrepared)) := by decide +kernel
  have published : (publish .phase (phaseContent kPhasePrepared) "cannot publish transaction phase" owned).Meets
      (updateContract request before restored) post disk := by
    refine publish_meets stable_updateKept kept (fun owned after same now => ?_)
      fun _ after same => thrown _ _ (undone.sameBut same)
    have phase : phaseOf after = .prepared := by
      rw [phaseOf, now]
      decide +kernel
    refine written owned after ⟨undone.untouched.trans (same.mono fun place touched => ?_), ?_⟩ phase
    · exact duringPreparation_of_orStaging touched
    · rw [phase]
      decide
  refine owned_then_meets (keep_meets ⟨kept, fun kind _ => ?_⟩)
  cases kind with
  | file => exact published
  | directory => exact published
  | reparse => exact published
  | other => exact published
  | missing =>
      have created : Undone before (disk.insert (.rollback .phase) (.file (.bytes []))) :=
        undone.insertPhase (by decide +kernel)
      refine owned_then_meets (createOwnedFile_meets kept (fun _ owned => ?_) fun _ => thrown _ _ undone)
      refine keep_meets (then_meets (write_meets created.kept fun transfer => ?_))
      rw [AList.insert_insert]
      cases transfer with
      | complete =>
          refine written owned _ (undone.insertPhase quiet) ?_
          rw [phaseOf, AList.lookup_insert]
          decide +kernel
      | partially count => exact thrown _ _ (undone.insertPhase (not_needsManifest_take count))

/-- A snapshot is taken of a file that exists. -/
theorem snapshotManagedFile_meets {file : ManagedFile} {owned : Owned} {taken : ManagedFile → Prop}
    {post : Except (String × Owned) (Bool × Owned) → Disk → Prop}
    (snapshotting : Snapshotting before disk taken)
    (ended : ∀ owned after, Snapshotting before after (fun other => other = file ∨ taken other) →
      (before.isFile (managedLive file) = false → before.lookup (managedLive file) = none) →
      post (.ok (before.isFile (managedLive file), owned)) after)
    (thrown : ∀ thrown after, Undone before after → post (.error thrown) after) :
    (snapshotManagedFile file owned).Meets (updateContract request before restored) post disk := by
  have undone := snapshotting.undone
  have here : disk.lookup (managedLive file) = before.lookup (managedLive file) := undone.untouched _ rfl
  refine owned_then_meets (keep_meets (classify_seen_meets managedSeen undone.kept ?_))
  cases kind : kindOf (disk.lookup (managedLive file)) with
  | directory => exact thrown _ _ undone
  | reparse => exact thrown _ _ undone
  | other => exact thrown _ _ undone
  | missing =>
      have gone : before.lookup (managedLive file) = none := here ▸ kindOf_eq_missing.mp kind
      have notFile : before.isFile (managedLive file) = false := by
        rw [Disk.isFile, gone]
        rfl
      have done := ended owned disk ⟨undone, snapshotting.phase, fun other which => ?_⟩ fun _ => gone
      · rw [notFile] at done
        exact done
      · rcases which with rfl | earlier
        · intro original kept was _
          rw [Disk.content?, gone] at was
          cases was
        · exact snapshotting.snapshots other earlier
  | file =>
      have isFile : before.isFile (managedLive file) = true := by
        rw [Disk.isFile, ← here, kind]
        rfl
      have notPhase : FileName.snapshot file ≠ .phase := by simp
      have inserted : ∀ part, Undone before (disk.insert (.rollback (.snapshot file)) (.file part)) :=
        fun part => undone.insert notPhase _
      have elsewhere : managedLive file ≠ .rollback (.snapshot file) := by simp [managedLive]
      refine owned_then_meets (copyFileCreateNew_meets elsewhere undone.kept
        (fun part => (inserted part).kept) (fun content owned source => ?_) (fun _ => thrown _ _ undone)
        fun _ part => thrown _ _ (inserted part))
      have done := ended owned (disk.insert (.rollback (.snapshot file)) (.file content))
        ⟨inserted content, ?_, fun other which => ?_⟩ fun wrong => absurd (isFile.symm.trans wrong) (by decide)
      · rw [isFile] at done
        exact done
      · rw [phaseOf_congr (AList.lookup_insert_ne (by simp))]
        exact snapshotting.phase
      · by_cases same : other = file
        · subst same
          intro original kept was now
          rw [Disk.content?, here, ← Disk.content?, was] at source
          rw [Disk.content?_insert_self] at now
          exact (Option.some.inj now).symm.trans (Option.some.inj source).symm
        · exact (snapshotting.snapshots other (which.resolve_left same)).congr
            (.inl (AList.lookup_insert_ne (by simp [same])))

/-- The state of `ignore.txt` is taken, with the digest of the package's if it is missing. -/
theorem inspectIgnore_meets {owned : Owned}
    {post : Except (String × Owned) ((Bool × Text) × Owned) → Disk → Prop} (undone : Undone before disk)
    (ended : ∀ digest, (before.isFile ignorePath = false → before.lookup ignorePath = none ∧
      ∃ content, before.content? .packageIgnore = some content ∧ digest = request.sha256 content) →
      post (.ok ((before.isFile ignorePath, digest), owned)) disk)
    (thrown : ∀ thrown, post (.error thrown) disk) :
    (inspectIgnore request owned).Meets (updateContract request before restored) post disk := by
  have kept : UpdateKept request before restored disk := undone.kept
  have here : disk.lookup ignorePath = before.lookup ignorePath := undone.untouched _ rfl
  refine owned_then_meets (keep_meets (classify_seen_meets ignoreSeen kept ?_))
  cases kind : kindOf (disk.lookup ignorePath) with
  | directory => exact thrown _
  | reparse => exact thrown _
  | other => exact thrown _
  | file =>
      have isFile : before.isFile ignorePath = true := by
        rw [Disk.isFile, ← here, kind]
        rfl
      have done := ended [] fun wrong => absurd (isFile.symm.trans wrong) (by decide)
      rw [isFile] at done
      exact done
  | missing =>
      have gone : before.lookup ignorePath = none := here ▸ kindOf_eq_missing.mp kind
      have notFile : before.isFile ignorePath = false := by
        rw [Disk.isFile, gone]
        rfl
      refine owned_then_meets (keep_meets (then_meets (openExistingFile_meets kept (fun _ _ => ?_)
        fun _ => thrown _)))
      refine then_meets (read_meets kept (fun _ content _ package => ?_) fun _ _ _ => thrown _)
      have given : before.content? .packageIgnore = some content := by
        rw [Disk.content?, ← undone.untouched .packageIgnore rfl, ← Disk.content?, package]
      have done := ended (request.sha256 content) fun _ => ⟨gone, content, given, rfl⟩
      rw [notFile] at done
      exact done

/-- A failed preparation has replaced nothing; a finished one has recorded everything. -/
def PreparationOutcome (request : UpdateRequest) (before : Disk) (restored : Prop) :
    Except (String × Owned) (TransactionManifest × Owned) → Disk → Prop
  | .ok (manifest, _), after =>
      Describes request before manifest ∧ Mutating request before restored after
  | .error _, after => Undone before after

/-- Once the manifest is published, the phase may become `mutation_started`. -/
theorem recordManifest_meets {manifest : TransactionManifest} {owned : Owned}
    (snapshotting : Snapshotting before disk fun _ => True) (describes : Describes request before manifest) :
    ((do
      writeManifest manifest
      writePhase kPhaseMutationStarted
      pure manifest : OwnedTask TransactionManifest) owned).Meets
      (updateContract request before restored)
      (PreparationOutcome request before restored) disk := by
  have undone := snapshotting.undone
  refine owned_then_meets (publish_meets stable_updateKept undone.kept (fun owned after same now => ?_)
    fun _ after same => undone.sameBut same)
  have untouched : Untouched before after :=
    undone.untouched.trans (same.mono fun place touched => duringPreparation_of_orStaging touched)
  have prepared : phaseOf after = .prepared := (phaseOf_congr (same _ rfl)).trans snapshotting.phase
  have published : Undone before after := ⟨untouched, by rw [prepared]; decide⟩
  have recorded : UpdateRecorded request before after :=
    ⟨⟨manifest, describes, Disk.content?_eq_of_lookup now⟩,
      fun file => (snapshotting.snapshots file trivial).congr (.inl (same _ rfl))⟩
  have phaseFile : ∃ content, after.lookup (.rollback .phase) = some (.file content) :=
    exists_phaseFile (by rw [prepared]; decide) (by rw [prepared]; decide)
  obtain ⟨content, here⟩ := phaseFile
  refine owned_then_meets (publishPhase_meets published.kept here (fun owned final sameFinal phase => ?_)
    fun _ final sameFinal => published.sameBut sameFinal)
  have started : phaseOf final = .mutationStarted := phase.trans (by decide +kernel)
  have recordedFinal : UpdateRecorded request before final :=
    recorded.congr (sameFinal _ rfl) fun _ => .inl (sameFinal _ rfl)
  refine ⟨describes, Untouched.kept ?_ fun _ => recordedFinal, started, recordedFinal⟩
  exact untouched.trans (sameFinal.mono fun place touched => duringPreparation_of_orStaging touched)

/-- Preparing touches nothing but the rollback directory. -/
theorem prepareUpdate_meets {owned : Owned} (undone : Undone before disk) :
    (prepareUpdate request owned).Meets (updateContract request before restored)
      (PreparationOutcome request before restored) disk := by
  have notPhase : FileName.marker ≠ .phase := by decide
  have marked : ∀ part, Undone before (disk.insert (.rollback .marker) (.file part)) :=
    fun part => undone.insert notPhase _
  refine owned_then_meets (owned_then_meets (createOwnedFile_meets undone.kept (fun _ owned => ?_)
    fun _ => undone))
  refine keep_meets (writeAll_meets (marked _).kept ?_ fun _ part => ?_)
  · rw [AList.insert_insert]
    refine owned_then_meets (writePrepared_meets (marked _) (fun owned after undone phase => ?_)
      fun _ _ undone => undone)
    refine owned_then_meets (keep_meets (then_meets ⟨undone.kept, fun numbers _ => ?_⟩))
    have first : Snapshotting before after fun _ => False := ⟨undone, phase, fun _ wrong => wrong.elim⟩
    refine owned_then_meets (snapshotManagedFile_meets first (fun owned one two settings => ?_)
      fun _ _ undone => undone)
    refine owned_then_meets (snapshotManagedFile_meets two (fun owned two three oem => ?_)
      fun _ _ undone => undone)
    refine owned_then_meets (snapshotManagedFile_meets three (fun owned three last endpoint => ?_)
      fun _ _ undone => undone)
    refine owned_then_meets (inspectIgnore_meets last.undone (fun digest ignore => ?_) fun _ => last.undone)
    refine recordManifest_meets ⟨last.undone, last.phase, fun file _ => last.snapshots file ?_⟩
      ⟨⟨rfl, ?_, rfl⟩, fun file => ?_, fun file => ?_, rfl, ignore⟩
    · cases file <;> simp
    · simp [hex8]
    · cases file <;> rfl
    · cases file with
      | settings => exact settings
      | oem => exact oem
      | endpoint => exact endpoint
  · rw [AList.insert_insert]
    exact marked part

/-! ## Mutation -/

theorem replace_meets {file : ManagedFile} {post : Except String Unit → Disk → Prop} (fresh : ¬ restored)
    (mutating : Mutating request before restored disk)
    (ended : ∀ outcome after, Mutating request before restored after → post outcome after) :
    (stageAndAtomicallyReplace (.replacement file) (managedLive file) .data).Meets
      (updateContract request before restored) post disk := by
  refine stageAndAtomicallyReplace_meets stable_updateKept rfl mutating.kept
    (fun content after _ _ same now => ?_) fun _ _ same => ended _ _ (mutating.staging same)
  have isFile : CanBeReplaced (after.lookup (managedLive file)) := by
    rw [now]
    exact .inr rfl
  exact ended _ _ (mutating.change (.inl ⟨file, rfl⟩) same isFile fun was => absurd was fresh)

/-- `ignore.txt` is installed, or partly, where there was none. -/
theorem installIgnoreIfMissing_meets {post : Except String Unit → Disk → Prop} (fresh : ¬ restored)
    (mutating : Mutating request before restored disk)
    (ended : ∀ outcome after, Mutating request before restored after → post outcome after) :
    installIgnoreIfMissing.Meets (updateContract request before restored) post disk := by
  have kept := mutating.kept
  refine then_meets (classify_seen_meets ignoreSeen kept ?_)
  cases kind : kindOf (disk.lookup ignorePath) with
  | file => exact ended _ _ mutating
  | directory => exact ended _ _ mutating
  | reparse => exact ended _ _ mutating
  | other => exact ended _ _ mutating
  | missing =>
      have missing : disk.lookup ignorePath = none := kindOf_eq_missing.mp kind
      have absent : before.lookup ignorePath = none := by
        by_contra there
        exact there ((kept.1.ignoreFixed there).symm.trans missing)
      have installed : ∀ part, Mutating request before restored
          (disk.insert ignorePath (.file part)) := by
        intro part
        refine mutating.change (.inr ⟨rfl, absent⟩) (sameBut_insert (orStaging_self _) disk _) ?_
          fun was => absurd was fresh
        rw [AList.lookup_insert]
        exact .inr rfl
      refine then_meets (requireRegularFile_meets kept (fun content package => ?_) fun _ => ended _ _ mutating)
      refine then_meets (openExistingFile_meets kept (fun _ _ => ?_) fun _ => ended _ _ mutating)
      refine then_meets (createNew_meets kept (fun _ => ?_) fun answer refused => ?_)
      · have there : Disk.content? (disk.insert ignorePath (.file (.bytes []))) .packageIgnore = some content :=
          (Disk.content?_insert_ne (by decide) disk _).trans package
        have copied : (copyHandleToHandle .packageIgnore ignorePath).Meets
            (updateContract request before restored)
            (fun _ after => ∃ part, after = disk.insert ignorePath (.file part))
            (disk.insert ignorePath (.file (.bytes []))) := by
          refine copyHandleToHandle_meets (installed _).kept there ?_ fun _ part => ?_
          · exact ⟨content, AList.insert_insert _⟩
          · exact ⟨part, AList.insert_insert _⟩
        refine Meets.attempt copied fun outcome after result => ?_
        obtain ⟨part, rfl⟩ := result
        cases outcome with
        | ok _ => exact ended _ _ (installed part)
        | error what =>
            refine then_meets (delete_meets (installed part).kept ?_ (ended _ _ (installed part)))
            have gone : ((disk.insert ignorePath (.file part)).erase ignorePath).lookup ignorePath = none :=
              AList.lookup_erase _ _
            exact ended _ _ ((installed part).change (.inr ⟨rfl, absent⟩)
              (sameBut_erase (orStaging_self _) _) (.inl (kindOf_eq_missing.mpr gone))
              fun was => absurd was fresh)
      · cases answer with
        | created => exact absurd rfl refused
        | «exists» => exact ended _ _ mutating
        | failed => exact ended _ _ mutating

theorem ensureDirectory_meets {post : Except String Unit → Disk → Prop}
    (mutating : Mutating request before restored disk)
    (ended : ∀ outcome after, Mutating request before restored after → post outcome after) :
    ensureDirectory.Meets (updateContract request before restored) post disk := by
  have kept := mutating.kept
  refine then_meets ⟨kept, fun kind _ => ?_⟩
  cases kind with
  | directory => exact ended _ _ mutating
  | file => exact ended _ _ mutating
  | reparse => exact ended _ _ mutating
  | other => exact ended _ _ mutating
  | missing =>
      refine then_meets (createDirectory_meets kept (fun _ => ?_) fun answer refused => ?_)
      · exact ended _ _ (mutating.sameBut (sameBut_insert rfl disk _))
      · cases answer with
        | created => exact absurd rfl refused
        | failed => exact ended _ _ mutating
        | «exists» =>
            refine then_meets ⟨kept, fun kind _ => ?_⟩
            cases kind <;> exact ended _ _ mutating

/-- The mutations keep everything recorded. -/
theorem replaceManaged_meets (fresh : ¬ restored) (mutating : Mutating request before restored disk) :
    replaceManaged.Meets (updateContract request before restored)
      (fun _ after => Mutating request before restored after) disk := by
  refine then_meets (replace_meets fresh mutating fun outcome first mutating => ?_)
  cases outcome with
  | error what => exact mutating
  | ok _ =>
      refine then_meets (replace_meets fresh mutating fun outcome second mutating => ?_)
      cases outcome with
      | error what => exact mutating
      | ok _ =>
          refine then_meets (replace_meets fresh mutating fun outcome third mutating => ?_)
          cases outcome with
          | error what => exact mutating
          | ok _ =>
              refine then_meets (installIgnoreIfMissing_meets fresh mutating fun outcome fourth mutating => ?_)
              cases outcome with
              | error what => exact mutating
              | ok _ => exact ensureDirectory_meets mutating fun _ _ mutating => mutating

/-- From the creation of the directory on, an apply keeps the invariant. -/
theorem applyUpdate_meets (fresh : ¬ restored) (undone : Undone before disk) :
    (applyUpdate request).Meets (updateContract request before restored)
      (fun _ after => UpdateKept request before restored after) disk := by
  have made : Undone before (disk.insert .rollbackDir .directory) := by
    refine ⟨undone.untouched.trans (sameBut_insert rfl disk _), ?_⟩
    rw [phaseOf_congr (AList.lookup_insert_ne (by decide))]
    exact undone.phase
  have created : createDirectoryExclusive.Meets (updateContract request before restored)
      (fun _ after => Undone before after) disk := by
    refine then_meets (createDirectory_meets undone.kept (fun _ => ?_) fun answer refused => ?_)
    · refine then_meets ⟨made.kept, fun kind _ => ?_⟩
      cases kind <;> exact made
    · cases answer with
      | created => exact absurd rfl refused
      | «exists» => exact undone
      | failed => exact undone
  refine Meets.attempt created fun outcome after undone => ?_
  cases outcome with
  | error what => exact undone.kept
  | ok _ =>
      refine then_meets (attemptOwned_meets ((prepareUpdate_meets undone).mono fun outcome prepared ended => ?_))
      cases outcome with
      | error thrown =>
          have cleanup : (bestEffortDeleteCreatedDirectory thrown.2).Meets
              (updateContract request before restored) (fun _ cleaned => Undone before cleaned) prepared :=
            bestEffortDeleteCreatedDirectory_meets shrinks_undone (fun _ left => left.kept) ended
          refine then_meets (cleanup.mono fun outcome cleaned left => ?_)
          cases outcome with
          | ok _ => exact left.kept
          | error _ => exact left.kept
      | ok result =>
          obtain ⟨manifest, owned⟩ := result
          obtain ⟨describes, mutating⟩ := ended
          refine Meets.attempt (replaceManaged_meets fresh mutating) fun outcome replaced mutating => ?_
          cases outcome with
          | ok _ => exact mutating.kept
          | error what =>
              exact Meets.attempt (restoreAndRecord_meets mutating describes) fun _ _ ended => ended.1

theorem applyCommand_meets (fresh : ¬ restored) (undone : Undone before disk) :
    (applyCommand request).Meets (updateContract request before restored)
      (fun _ after => UpdateKept request before restored after) disk := by
  have kept : UpdateKept request before restored disk := undone.kept
  refine then_meets (requireDirectory_meets kept (fun _ => ?_) fun _ => kept)
  refine then_meets (requireDirectory_meets kept (fun _ => ?_) fun _ => kept)
  refine then_meets (requireRegularFile_meets kept (fun _ _ => ?_) fun _ => kept)
  refine then_meets (requireRegularFile_meets kept (fun _ _ => ?_) fun _ => kept)
  refine then_meets (requireRegularFile_meets kept (fun _ _ => ?_) fun _ => kept)
  refine then_meets (requireRegularFile_meets kept (fun _ _ => ?_) fun _ => kept)
  refine then_meets (validateRollbackPath_meets kept ?_ fun _ => kept)
  exact applyUpdate_meets fresh undone

end Recovery

/-! ## Runs -/

/-- What holds between the commands. -/
structure UpdateIdle (request : UpdateRequest) (before : Disk) (history : History)
    (disk : Disk) : Prop where
  begun : history = [] → Undone before disk
  kept : UpdateKept request before (HasRestored history) disk

/-- What holds while a command runs. -/
def UpdateDuring (request : UpdateRequest) (before : Disk) (_ : Command) (history : History)
    (disk : Disk) : Prop :=
  UpdateKept request before (HasRestored history) disk

/-- After a command that restored nothing, everything holds as before it. -/
theorem updateKept_of_cons {request : UpdateRequest} {before disk : Disk} {history : History}
    {entry : Command × Ending String Nat}
    (kept : UpdateKept request before (HasRestored history) disk)
    (restores : entry = (.rollback, .returned 0) → ExactData before disk) :
    UpdateIdle request before (entry :: history) disk := by
  refine ⟨fun wrong => absurd wrong (List.cons_ne_nil _ _), kept.1, fun restored => ?_⟩
  rcases hasRestored_of_cons restored with new | earlier
  · exact restores new
  · exact kept.2 earlier

/-- The three commands keep what holds between them. -/
theorem update_keeps (request : UpdateRequest) (before : Disk) :
    Invocations.Keeps Disk.handler (updateProgram request) startable (Undeceived request before)
      (UpdateIdle request before) (UpdateDuring request before) where
  meets := by
    intro command history disk may idle
    cases command with
    | apply =>
        obtain rfl : history = [] := List.isEmpty_iff.mp may
        have fresh : ¬ HasRestored [] := fun wrong => nomatch wrong
        refine (applyCommand_meets fresh (idle.begun rfl)).mono fun outcome after kept => ?_
        exact ⟨updateKept_of_cons kept (fun wrong => nomatch wrong), kept⟩
    | rollback =>
        refine (rollbackCommand_meets idle.kept).mono fun outcome after ended => ?_
        refine ⟨updateKept_of_cons ended.1 fun new => ?_, ended.1⟩
        exact ended.2 (returned_zero_of_ending (Prod.mk.inj new).2)
    | commit =>
        refine (commitCommand_meets idle.kept).mono fun outcome after kept => ?_
        exact ⟨updateKept_of_cons kept (fun wrong => nomatch wrong), kept⟩
  stopped := by
    intro command history disk may kept
    exact updateKept_of_cons kept fun wrong => nomatch wrong

/-- In every run in which no attribute query about the data fails and `restoreIgnore`
finds the digest of the package's `ignore.txt`: from the first rollback that
returns success on, the managed files and `ignore.txt` are as they were before the
apply. -/
theorem updateRollback_exact (request : UpdateRequest) (before : FreshDisk)
    (steps : List (Invoke Command Choice))
    (undeceived : (updateRuns request).Conforms (Invocations.Permits (Undeceived request before.1))
      (.initial before.1) steps) :
    (updateRuns request).Throughout (RollbackExact before.1) (.initial before.1) steps := by
  have undone : Undone before.1 before.1 := ⟨SameBut.refl _ _, by rw [phaseOf, lookup_of_fresh]; decide⟩
  have fresh : UpdateIdle request before.1 [] before.1 := ⟨fun _ => undone, undone.kept⟩
  refine Invocations.throughout_of_meets (update_keeps request before.1) fresh undeceived fun s invariant => ?_
  obtain ⟨disk, running, history⟩ := s
  cases running with
  | none => exact invariant.kept.2
  | some current => exact (Invocations.during_of_meets invariant.2).2

/-! ## An installation without `ignore.txt` -/

instance (disk : Disk) (call : Call) (choice : Choice) : Decidable (DataSeen disk call choice) := by
  unfold DataSeen
  split <;> infer_instance

instance (request : UpdateRequest) (before disk : Disk) (call : Call) (choice : Choice) :
    Decidable (IgnoreProven request before disk call choice) :=
  inferInstanceAs (Decidable (_ → _))

instance (request : UpdateRequest) (before disk : Disk) (call : Call) (choice : Choice) :
    Decidable (Undeceived request before disk call choice) :=
  decidable_of_iff (DataSeen disk call choice ∧ IgnoreProven request before disk call choice)
    ⟨fun both => ⟨both.1, both.2⟩, fun both => ⟨both.seen, both.proven⟩⟩

/-- An update of `C:\Data`; the digests are those of no byte and of `*.tmp`. -/
def cleanUpdate : UpdateRequest where
  dataDir := "C:\\Data".toList
  nonempty := by decide
  sha256
    | .bytes [] => "e3b0c44298fc1c149afbf4c8996fb92427ae41e4649b934ca495991b7852b855".toList
    | .bytes _ => "8208cd57e8de8d61b00525319f096c9105f6368bc480b3380ba8bc64e82e2017".toList
    | _ => List.replicate 64 '0'
  digits content := by split <;> decide +kernel

/-- An empty data directory, and a package whose `ignore.txt` is `*.tmp`. -/
def cleanDisk : FreshDisk := ⟨[.replacement .settings, .replacement .oem, .replacement .endpoint].foldr
    (fun place disk => AList.insert place (.file (.bytes [])) disk)
    (AList.insert .dataDir .directory (AList.insert .packageData .directory
      (AList.insert .packageIgnore (.file (.bytes (Word.ofAscii "*.tmp"))) ∅))), by decide +kernel⟩

/-- An apply that stops after a number of calls, and a rollback. -/
def stoppedApply (calls rest : Nat) : List (Invoke Command Choice) :=
  .start .apply :: List.replicate calls smooth ++ [.stop, .start .rollback] ++ List.replicate rest smooth

/-- The apply stops after it has installed `ignore.txt`. -/
theorem updateRollback_exact_installed :
    (updateRuns cleanUpdate).Throughout (RollbackExact cleanDisk.1) (.initial cleanDisk.1)
      (stoppedApply 63 29) :=
  updateRollback_exact cleanUpdate cleanDisk _ (by decide +kernel)

/-- The apply stops between the creation of `ignore.txt` and its content: a later
rollback returns success and leaves the empty file. -/
theorem not_rollbackExact_partial :
    ¬ ∀ (request : UpdateRequest) (before : FreshDisk) (steps : List (Invoke Command Choice))
      (final : Invocations Command Call Answer String Nat Disk),
      (updateRuns request).run (.initial before.1) steps = some final → RollbackExact before.1 final := by
  intro claim
  have outcome : ((updateRuns cleanUpdate).run (.initial cleanDisk.1) (stoppedApply 62 28)).map (fun final =>
      (final.history, final.state.isFile ignorePath, cleanDisk.1.isFile ignorePath)) =
        some ([(.rollback, .returned 0), (.apply, .stopped)], true, false) := by
    decide +kernel
  obtain ⟨final, done, seen⟩ := Option.map_eq_some_iff.mp outcome
  simp only [Prod.mk.injEq] at seen
  obtain ⟨history, now, was⟩ := seen
  have restored : (.rollback, .returned 0) ∈ final.history := by
    rw [history]
    exact List.mem_cons_self
  have same := (claim cleanUpdate cleanDisk _ final done restored).2
  rw [Disk.isFile, same] at now
  exact absurd (now.symm.trans was) (by decide)

end SearchEngine.Runtime
