import SearchEngine.Runtime.DiskRules
import SearchEngine.Runtime.SettingsTransaction

/-!
# The settings transaction survives a stop at any call

The manifest is published after the snapshots are complete and before anything
is replaced. So whoever finds marker and manifest finds the files of before the
apply in the snapshots that are left (`Safe`), however many commands have
stopped. `snapshotEndpoint` and `removeCreatedEndpoint` take an endpoint file
whose attributes they cannot read for a missing one; where that does not happen,
the transaction survives (`EndpointSeen`).
-/

namespace SearchEngine.Runtime

open SearchEngine.Index (Word)
open SearchEngine.Lib Coroutine

/-! ## The property -/

/-- Both files are as they were. -/
def SameSettings (before after : Disk) : Prop :=
  after.lookup settingsLive = before.lookup settingsLive ∧
    after.lookup endpointLive = before.lookup endpointLive

/-- Both files have the content that the apply was given; an endpoint file that
is not managed is as it was. -/
def NewSettings (request : SettingsRequest) (before after : Disk) : Prop :=
  (∃ content, before.content? (.replacement .settings) = some content ∧
    after.lookup settingsLive = some (.file content)) ∧
  if request.manageEndpoint then
    ∃ content, before.content? (.replacement .endpoint) = some content ∧
      after.lookup endpointLive = some (.file content)
  else after.lookup endpointLive = before.lookup endpointLive

/-- From the first rollback that returns success on, both files are as before the
apply. From an apply that returns success on, they have the new content while
nothing but commits runs. -/
structure CrashSafe (request : SettingsRequest) (before : Disk)
    (s : Invocations Command Call Answer String Nat Disk) : Prop where
  restored : (.rollback, .returned 0) ∈ s.history → SameSettings before s.state
  committed : (.apply, .returned 0) ∈ s.history → (∀ entry ∈ s.history, entry.1 ≠ .rollback) →
    (∀ current ∈ s.running, current.1 ≠ .rollback) → NewSettings request before s.state

/-- The attributes of the endpoint file are read where they are asked for. -/
def EndpointSeen (disk : Disk) : Call → Choice → Prop
  | .classify place, choice => place = endpointLive → disk.Seen place choice
  | _, _ => True

/-! ## The crash invariant -/

section Recovery

variable {request : SettingsRequest} {before : Disk}

/-- The contract of the commands. -/
abbrev settingsContract (safe : Disk → Prop) : Contract Call Answer Disk := osContract EndpointSeen safe

theorem endpointSeen {disk : Disk} (choice : Choice) (allowed : EndpointSeen disk (.classify endpointLive) choice) :
    disk.Seen endpointLive choice := allowed rfl

/-- The manifest that an apply publishes. -/
def publishedManifest (request : SettingsRequest) (before : Disk) : CfgManifest :=
  ⟨request.dataDir, true, request.manageEndpoint, request.manageEndpoint && before.isFile endpointLive⟩

/-- The snapshot of a file, where there is one, has its content of before the apply. -/
def SnapshotOf (before disk : Disk) (file : ManagedFile) : Prop :=
  ∀ original kept, before.content? (.data (.managed file)) = some original →
    disk.content? (.rollback (.snapshot file)) = some kept → kept = original

/-- The manifest is complete, and so are the snapshots that are left. -/
structure Recorded (request : SettingsRequest) (before disk : Disk) : Prop where
  manifest : disk.content? (.rollback .cfgManifest) =
    some (.json (cfgManifestToJson (publishedManifest request before)))
  existed : before.isFile settingsLive = true
  settings : SnapshotOf before disk .settings
  endpoint : request.manageEndpoint = true → SnapshotOf before disk .endpoint

/-- What `stageAndAtomicallyReplace` accepts as a destination. -/
def Replaceable (node : Option Node) : Prop := kindOf node = .missing ∨ kindOf node = .file

/-- The apply may replace the endpoint file. -/
def EndpointChanges (request : SettingsRequest) (before : Disk) : Prop :=
  request.manageEndpoint = true ∧ Replaceable (before.lookup endpointLive)

/-- What holds on the disk whenever a command may stop. -/
structure Safe (request : SettingsRequest) (before disk : Disk) : Prop where
  replacements : ∀ file, disk.lookup (.replacement file) = before.lookup (.replacement file)
  fixed : ¬ EndpointChanges request before → disk.lookup endpointLive = before.lookup endpointLive
  changing : EndpointChanges request before → Replaceable (disk.lookup endpointLive)
  recorded : disk.lookup (.rollback .cfgMarker) ≠ none → disk.lookup (.rollback .cfgManifest) ≠ none →
    Recorded request before disk

theorem SnapshotOf.congr {disk after : Disk} {file : ManagedFile} (snapshot : SnapshotOf before disk file)
    (same : after.lookup (.rollback (.snapshot file)) = disk.lookup (.rollback (.snapshot file)) ∨
      after.lookup (.rollback (.snapshot file)) = none) : SnapshotOf before after file := by
  intro original kept was now
  rcases same with same | gone
  · rw [Disk.content?, same, ← Disk.content?] at now
    exact snapshot original kept was now
  · rw [Disk.content?, gone] at now
    cases now

/-- A snapshot that was taken of a file that is as it was. -/
theorem snapshotOf_insert {disk : Disk} {file : ManagedFile} {content : Content}
    (untouched : disk.lookup (.data (.managed file)) = before.lookup (.data (.managed file)))
    (source : disk.content? (.data (.managed file)) = some content) :
    SnapshotOf before (disk.insert (.rollback (.snapshot file)) (.file content)) file := by
  intro original kept was now
  rw [Disk.content?, untouched, ← Disk.content?, was] at source
  rw [Disk.content?_insert_self] at now
  exact (Option.some.inj now).symm.trans (Option.some.inj source).symm

theorem Recorded.congr {disk after : Disk} (recorded : Recorded request before disk)
    (manifest : after.lookup (.rollback .cfgManifest) = disk.lookup (.rollback .cfgManifest))
    (snapshots : ∀ file, after.lookup (.rollback (.snapshot file)) = disk.lookup (.rollback (.snapshot file)) ∨
      after.lookup (.rollback (.snapshot file)) = none) : Recorded request before after := by
  refine ⟨?_, recorded.existed, recorded.settings.congr (snapshots _), fun managed => ?_⟩
  · rw [Disk.content?, manifest, ← Disk.content?]
    exact recorded.manifest
  · exact (recorded.endpoint managed).congr (snapshots _)

theorem Recorded.sameBut {touched : Place → Bool} {disk after : Disk}
    (recorded : Recorded request before disk) (same : SameBut touched disk after)
    (quiet : ∀ name, (∀ p t s, name ≠ .staging p t s) → touched (.rollback name) = false) :
    Recorded request before after :=
  recorded.congr (same _ (quiet _ (by simp))) fun _ => .inl (same _ (quiet _ (by simp)))

/-- The invariant looks neither at staging files nor at `Settings.json`. -/
theorem Safe.sameBut {touched : Place → Bool} {disk after : Disk} (safe : Safe request before disk)
    (same : SameBut touched disk after)
    (quiet : ∀ name, (∀ p t s, name ≠ .staging p t s) → touched (.rollback name) = false)
    (sources : ∀ file, touched (.replacement file) = false)
    (endpoint : touched endpointLive = false ∨
      EndpointChanges request before ∧ Replaceable (after.lookup endpointLive)) :
    Safe request before after := by
  refine ⟨fun file => ?_, fun fixed => ?_, fun changes => ?_, fun marker manifest => ?_⟩
  · rw [same _ (sources file)]
    exact safe.replacements file
  · rcases endpoint with untouched | ⟨changes, _⟩
    · rw [same _ untouched]
      exact safe.fixed fixed
    · exact absurd changes fixed
  · rcases endpoint with untouched | ⟨_, replaceable⟩
    · rw [same _ untouched]
      exact safe.changing changes
    · exact replaceable
  · rw [same _ (quiet _ (by simp))] at marker manifest
    exact (safe.recorded marker manifest).sameBut same quiet

theorem orStaging_data_rollback {live : FileName} {name : FileName}
    (named : ∀ p t s, name ≠ .staging p t s) : orStaging (.data live) (.rollback name) = false := by
  rw [orStaging, isStaging_rollback named]
  rfl

theorem stable_safe : Stable Place.isStaging (Safe request before) :=
  fun _ _ same safe =>
    safe.sameBut same (fun _ named => isStaging_rollback named) (fun _ => rfl) (.inl rfl)

theorem stable_safe_settings : Stable (orStaging settingsLive) (Safe request before) :=
  fun _ _ same safe =>
    safe.sameBut same (fun _ named => orStaging_data_rollback named) (fun _ => rfl) (.inl rfl)

theorem Safe.replaceEndpoint {disk after : Disk} (safe : Safe request before disk)
    (same : SameBut (orStaging endpointLive) disk after) (changes : EndpointChanges request before)
    (replaceable : Replaceable (after.lookup endpointLive)) : Safe request before after :=
  safe.sameBut same (fun _ named => orStaging_data_rollback named) (fun _ => rfl)
    (.inr ⟨changes, replaceable⟩)

/-! ## Rollback -/

/-- The crash invariant of a rollback; after the first that succeeded both files stay as they were. -/
def RollbackSafe (request : SettingsRequest) (before : Disk) (restored : Prop) (disk : Disk) : Prop :=
  Safe request before disk ∧ (restored → SameSettings before disk)

variable {restored : Prop} {disk : Disk}

theorem stable_rollbackSafe : Stable Place.isStaging (RollbackSafe request before restored) := by
  intro disk after same safe
  refine ⟨stable_safe _ _ same safe.1, fun done => ?_⟩
  obtain ⟨settings, endpoint⟩ := safe.2 done
  exact ⟨(same _ rfl).trans settings, (same _ rfl).trans endpoint⟩

/-- Who opens the transaction finds it recorded. -/
theorem openSettingsTransaction_meets {safe : Disk → Prop}
    {post : Except String CfgManifest → Disk → Prop}
    (holds : safe disk) (implies : safe disk → Safe request before disk)
    (opened : Recorded request before disk → post (.ok (publishedManifest request before)) disk)
    (thrown : ∀ what, post (.error what) disk) :
    (openSettingsTransaction request).Meets (settingsContract safe) post disk := by
  refine then_meets (requireDirectory_meets holds (fun _ => ?_) fun _ => thrown _)
  refine then_meets (checkRollbackDir_meets holds ?_ fun _ => thrown _)
  refine then_meets (then_meets (requireRegularFile_meets holds (fun marker markerHere => ?_) fun _ => thrown _))
  refine then_meets (requireRegularFile_meets holds (fun found manifestHere => ?_) fun _ => thrown _)
  have markerThere : disk.lookup (.rollback .cfgMarker) ≠ none := by
    rw [Disk.lookup_eq_of_content? markerHere]
    exact Option.some_ne_none _
  have manifestThere : disk.lookup (.rollback .cfgManifest) ≠ none := by
    rw [Disk.lookup_eq_of_content? manifestHere]
    exact Option.some_ne_none _
  have recorded := (implies holds).recorded markerThere manifestThere
  refine then_meets (read_meets holds (fun _ content _ here => ?_) fun _ _ _ => thrown _)
  rw [recorded.manifest] at here
  obtain rfl := Option.some.inj here
  change (if (publishedManifest request before).dataDir = request.dataDir then _ else _ :
    Task CfgManifest).Meets _ _ _
  have sameDir : (publishedManifest request before).dataDir = request.dataDir := rfl
  rw [if_pos sameDir]
  exact opened recorded

/-- The endpoint file that did not exist is removed, and nothing else is. -/
theorem removeCreatedEndpoint_meets {post : Except String Unit → Disk → Prop}
    (holds : RollbackSafe request before restored disk)
    (absent : before.isFile endpointLive = false)
    (settings : disk.lookup settingsLive = before.lookup settingsLive)
    (ended : ∀ after, Safe request before after → SameSettings before after → post (.ok ()) after)
    (thrown : ∀ what after, RollbackSafe request before restored after → post (.error what) after) :
    removeCreatedEndpoint.Meets (settingsContract (RollbackSafe request before restored)) post disk := by
  have notFile : kindOf (before.lookup endpointLive) ≠ .file := by
    intro file
    rw [Disk.isFile, file] at absent
    cases absent
  refine then_meets (classify_seen_meets endpointSeen holds ?_)
  by_cases changes : EndpointChanges request before
  · have missing : before.lookup endpointLive = none :=
      kindOf_eq_missing.mp (changes.2.resolve_right notFile)
    rcases holds.1.changing changes with gone | created
    · rw [gone]
      exact ended disk holds.1 ⟨settings, (kindOf_eq_missing.mp gone).trans missing.symm⟩
    · rw [created]
      refine then_meets (delete_meets holds ?_ (thrown _ _ holds))
      have touched : orStaging endpointLive endpointLive = true := orStaging_self endpointLive
      have same := sameBut_erase touched disk
      have erased : (disk.erase endpointLive).lookup endpointLive = none := AList.lookup_erase _ _
      refine ended _ (holds.1.replaceEndpoint same changes (.inl (kindOf_eq_missing.mpr erased))) ?_
      exact ⟨(same _ rfl).trans settings, erased.trans missing.symm⟩
  · have same := holds.1.fixed changes
    rw [same]
    have done := ended disk holds.1 ⟨settings, same⟩
    cases kind : kindOf (before.lookup endpointLive) with
    | file => exact absurd kind notFile
    | missing => exact done
    | directory => exact done
    | reparse => exact done
    | other => exact done

theorem restoreSettings_meets {post : Except String Unit → Disk → Prop}
    (holds : RollbackSafe request before restored disk) (recorded : Recorded request before disk)
    (ended : ∀ after, Safe request before after → SameSettings before after → post (.ok ()) after)
    (thrown : ∀ what after, RollbackSafe request before restored after → post (.error what) after) :
    (restoreSettings (publishedManifest request before)).Meets
      (settingsContract (RollbackSafe request before restored)) post disk := by
  have failed := fun what after (same : SameBut Place.isStaging disk after) =>
    thrown what after (stable_rollbackSafe _ _ same holds)
  refine then_meets (stageAndAtomicallyReplace_meets stable_rollbackSafe rfl holds
    (fun content after source _ same settingsNow => ?_) failed)
  obtain ⟨original, was⟩ := Disk.exists_content? (beq_iff_eq.mp recorded.existed)
  obtain rfl := recorded.settings original content was source
  have settings : after.lookup settingsLive = before.lookup settingsLive :=
    settingsNow.trans (Disk.lookup_eq_of_content? was).symm
  have safe : RollbackSafe request before restored after := by
    refine ⟨stable_safe_settings _ _ same holds.1, fun done => ⟨settings, ?_⟩⟩
    exact (same _ rfl).trans (holds.2 done).2
  have recordedNow := recorded.sameBut same fun _ named => orStaging_data_rollback named
  change (if request.manageEndpoint then (if request.manageEndpoint && before.isFile endpointLive
    then _ else _) else _ : Task Unit).Meets _ _ _
  cases managed : request.manageEndpoint with
  | false =>
      have unchanging : ¬ EndpointChanges request before := fun changes =>
        absurd (managed.symm.trans changes.1) Bool.false_ne_true
      exact ended after safe.1 ⟨settings, safe.1.fixed unchanging⟩
  | true =>
      cases existed : before.isFile endpointLive with
      | false => exact removeCreatedEndpoint_meets safe existed settings ended thrown
      | true =>
          obtain ⟨content, here⟩ := Disk.exists_content? (beq_iff_eq.mp existed)
          have changes : EndpointChanges request before := ⟨managed, .inr (beq_iff_eq.mp existed)⟩
          refine stageAndAtomicallyReplace_meets stable_rollbackSafe rfl safe
            (fun found final source _ sameEnd endpointNow => ?_) fun what final sameEnd =>
              thrown what final (stable_rollbackSafe _ _ sameEnd safe)
          obtain rfl := recordedNow.endpoint managed content found here source
          have endpoint := endpointNow.trans (Disk.lookup_eq_of_content? here).symm
          have replaceable : Replaceable (final.lookup endpointLive) := by
            rw [endpointNow]
            exact .inr rfl
          exact ended final (safe.1.replaceEndpoint sameEnd changes replaceable)
            ⟨(sameEnd _ rfl).trans settings, endpoint⟩

/-- A rollback that returns success leaves both files as they were. -/
theorem settingsRollbackCommand_meets (holds : RollbackSafe request before restored disk) :
    (settingsRollbackCommand request).Meets (settingsContract (RollbackSafe request before restored))
      (fun outcome after => RollbackSafe request before restored after ∧
        (outcome = .ok 0 → SameSettings before after)) disk := by
  have body : (do
      let manifest ← openSettingsTransaction request
      restoreSettings manifest : Task Unit).Meets
      (settingsContract (RollbackSafe request before restored))
      (fun outcome after => RollbackSafe request before restored after ∧
        (outcome = .ok () → SameSettings before after)) disk := by
    refine then_meets (openSettingsTransaction_meets holds And.left (fun recorded => ?_)
      fun what => ⟨holds, fun wrong => nomatch wrong⟩)
    refine restoreSettings_meets holds recorded (fun after safe same => ?_) fun what after safe => ?_
    · exact ⟨⟨safe, fun _ => same⟩, fun _ => same⟩
    · exact ⟨safe, fun wrong => nomatch wrong⟩
  refine Meets.attempt body fun outcome after ended => ?_
  cases outcome with
  | ok _ => exact ⟨ended.1, fun _ => ended.2 rfl⟩
  | error what => exact ⟨ended.1, fun wrong => nomatch wrong⟩

/-! ## Commit -/

/-- The crash invariant of a commit. -/
def CommitSafe (request : SettingsRequest) (before : Disk) (restored applied : Prop) (disk : Disk) : Prop :=
  RollbackSafe request before restored disk ∧ (applied → NewSettings request before disk)

variable {applied : Prop}

/-- What is lost in the rollback directory changes neither file, and no snapshot that is left. -/
theorem shrinks_commitSafe : Shrinks (CommitSafe request before restored applied) := by
  rintro disk after lost ⟨⟨safe, restoredSame⟩, appliedNew⟩
  have settings : after.lookup settingsLive = disk.lookup settingsLive := lost.sameBut _ rfl
  have endpoint : after.lookup endpointLive = disk.lookup endpointLive := lost.sameBut _ rfl
  refine ⟨⟨⟨fun file => ?_, fun fixed => ?_, fun changes => ?_, fun marker manifest => ?_⟩,
    fun done => ?_⟩, fun done => ?_⟩
  · exact (lost.sameBut _ rfl).trans (safe.replacements file)
  · exact endpoint.trans (safe.fixed fixed)
  · exact endpoint ▸ safe.changing changes
  · have markerSame := lost.lookup_eq_of_ne_none marker
    have manifestSame := lost.lookup_eq_of_ne_none manifest
    refine (safe.recorded (markerSame ▸ marker) (manifestSame ▸ manifest)).congr manifestSame fun file => ?_
    exact (lost _).imp id And.right
  · exact ⟨settings.trans (restoredSame done).1, endpoint.trans (restoredSame done).2⟩
  · rw [NewSettings, settings, endpoint]
    exact appliedNew done

theorem settingsCommitCommand_meets (holds : CommitSafe request before restored applied disk) :
    (settingsCommitCommand request).Meets (settingsContract (CommitSafe request before restored applied))
      (fun _ after => CommitSafe request before restored applied after) disk := by
  have body : (do
      let manifest ← openSettingsTransaction request
      deleteTransactionFiles (cfgExpectedFiles manifest) : Task Unit).Meets
      (settingsContract (CommitSafe request before restored applied))
      (fun _ after => CommitSafe request before restored applied after) disk := by
    refine then_meets (openSettingsTransaction_meets holds (fun holds => holds.1.1) (fun _ => ?_) fun _ => holds)
    exact deleteTransactionFiles_meets shrinks_commitSafe (fun _ left => left) holds
  refine Meets.attempt body fun outcome after ended => ?_
  cases outcome with
  | ok _ => exact ended
  | error what => exact ended

/-! ## Apply -/

/-- Nothing is replaced and no manifest is published. -/
def Preparing (before disk : Disk) : Prop :=
  SameBut duringPreparation before disk ∧ disk.lookup (.rollback .cfgManifest) = none

/-- What may happen to the endpoint file is decided by what it was. -/
theorem replaceable_of_changes (changes : EndpointChanges request before) {disk : Disk}
    (same : disk.lookup endpointLive = before.lookup endpointLive) :
    Replaceable (disk.lookup endpointLive) := same ▸ changes.2

theorem Preparing.safe (preparing : Preparing before disk) : Safe request before disk :=
  ⟨fun _ => preparing.1 _ rfl, fun _ => preparing.1 _ rfl,
    fun changes => replaceable_of_changes changes (preparing.1 _ rfl),
    fun _ manifest => absurd preparing.2 manifest⟩

theorem Preparing.insert (preparing : Preparing before disk) {name : FileName} (other : name ≠ .cfgManifest)
    (node : Node) : Preparing before (disk.insert (.rollback name) node) := by
  refine ⟨preparing.1.trans (sameBut_insert rfl disk node), ?_⟩
  rw [AList.lookup_insert_ne (by simp [Ne.symm other])]
  exact preparing.2

theorem shrinks_preparing : Shrinks (Preparing before) := by
  intro disk after lost preparing
  refine ⟨preparing.1.trans (lost.sameBut.mono fun place inside => ?_), ?_⟩
  · exact duringPreparation_of_inRollback inside
  · rcases lost (.rollback .cfgManifest) with same | gone
    · exact same.trans preparing.2
    · exact gone.2

theorem Preparing.staging {after : Disk} (preparing : Preparing before disk)
    (same : SameBut Place.isStaging disk after) : Preparing before after := by
  exact ⟨preparing.1.trans (same.mono fun _ => duringPreparation_of_isStaging), (same _ rfl).trans preparing.2⟩

/-- Everything is recorded and nothing is replaced yet. -/
structure Prepared (request : SettingsRequest) (before disk : Disk) : Prop where
  safe : Safe request before disk
  settings : disk.lookup settingsLive = before.lookup settingsLive
  endpoint : disk.lookup endpointLive = before.lookup endpointLive

/-- A failed preparation published nothing; a finished one recorded everything. -/
def PreparationEnds (request : SettingsRequest) (before : Disk) :
    Except (String × Owned) (CfgManifest × Owned) → Disk → Prop
  | .ok (manifest, _), after =>
      manifest = publishedManifest request before ∧ Prepared request before after
  | .error _, after => Preparing before after

theorem writeCfgManifest_meets {owned : Owned} (preparing : Preparing before disk)
    (existed : before.isFile settingsLive = true) (settings : SnapshotOf before disk .settings)
    (endpoint : request.manageEndpoint = true → SnapshotOf before disk .endpoint) :
    ((do
      writeCfgManifest (publishedManifest request before)
      pure (publishedManifest request before) : OwnedTask CfgManifest) owned).Meets
      (settingsContract (Safe request before)) (PreparationEnds request before) disk := by
  refine owned_then_meets (publish_meets stable_safe preparing.safe (fun owned after same published => ?_)
    fun _ after same => preparing.staging same)
  have quiet : ∀ live, orStaging (.rollback .cfgManifest) (.data (.managed live)) = false := fun _ => rfl
  have settingsSame := (same settingsLive (quiet _)).trans (preparing.1 settingsLive rfl)
  have endpointSame := (same endpointLive (quiet _)).trans (preparing.1 endpointLive rfl)
  have recorded : Recorded request before after :=
    ⟨Disk.content?_eq_of_lookup published, existed, settings.congr (.inl (same _ rfl)),
      fun managed => (endpoint managed).congr (.inl (same _ rfl))⟩
  refine ⟨rfl, ⟨fun file => ?_, fun _ => endpointSame, fun changes => replaceable_of_changes changes endpointSame,
    fun _ _ => recorded⟩, settingsSame, endpointSame⟩
  exact (same _ rfl).trans (preparing.1 _ rfl)

/-- The endpoint file is snapshotted if it is managed and there. -/
theorem snapshotEndpoint_meets {owned : Owned}
    {post : Except (String × Owned) (Bool × Owned) → Disk → Prop} (preparing : Preparing before disk)
    (settings : SnapshotOf before disk .settings)
    (ended : ∀ owned after, Preparing before after → SnapshotOf before after .settings →
      (request.manageEndpoint = true → SnapshotOf before after .endpoint) →
      post (.ok (request.manageEndpoint && before.isFile endpointLive, owned)) after)
    (thrown : ∀ thrown after, Preparing before after → post (.error thrown) after) :
    (snapshotEndpoint request.manageEndpoint owned).Meets (settingsContract (Safe request before))
      post disk := by
  have here : disk.lookup endpointLive = before.lookup endpointLive := preparing.1 _ rfl
  cases managed : request.manageEndpoint with
  | false =>
      rw [managed] at ended
      exact ended owned disk preparing settings fun wrong => absurd wrong Bool.false_ne_true
  | true =>
      rw [managed] at ended
      refine owned_then_meets (keep_meets (classify_seen_meets endpointSeen preparing.safe ?_))
      have absent : kindOf (disk.lookup endpointLive) ≠ .file → post (.ok (false, owned)) disk := by
        intro notFile
        rw [here] at notFile
        have none_there : before.isFile endpointLive = false := beq_eq_false_iff_ne.mpr notFile
        have done := ended owned disk preparing settings fun _ _ _ was =>
          absurd (Disk.kindOf_of_content? was) notFile
        rw [none_there] at done
        exact done
      cases kind : kindOf (disk.lookup endpointLive) with
      | missing => exact absent (by rw [kind]; decide)
      | directory => exact absent (by rw [kind]; decide)
      | reparse => exact absent (by rw [kind]; decide)
      | other => exact absent (by rw [kind]; decide)
      | file =>
          have notManifest : FileName.snapshot .endpoint ≠ .cfgManifest := by decide
          have notSettings : Place.rollback (.snapshot .settings) ≠ .rollback (.snapshot .endpoint) := by
            decide
          have inserted : ∀ part, Preparing before
              (disk.insert (.rollback (.snapshot .endpoint)) (.file part)) :=
            fun part => preparing.insert notManifest _
          refine owned_then_meets (copyFileCreateNew_meets (fun wrong => nomatch wrong) preparing.safe
            (fun part => (inserted part).safe) (fun content owned source => ?_)
            (fun _ => thrown _ _ preparing) fun _ part => thrown _ _ (inserted part))
          have there : before.isFile endpointLive = true := by
            rw [Disk.isFile, ← here, kind]
            rfl
          have settingsKept : SnapshotOf before
              (disk.insert (.rollback (.snapshot .endpoint)) (.file content)) .settings :=
            settings.congr (.inl (AList.lookup_insert_ne notSettings))
          have done := ended owned _ (inserted content) settingsKept fun _ => snapshotOf_insert here source
          rw [there] at done
          exact done

/-- The part of the preparation after the marker. -/
theorem snapshotSettings_meets {owned : Owned} (preparing : Preparing before disk) :
    ((do
      match ← keep (ask (.classify settingsLive)) with
      | .file => pure ()
      | _ => keep (.raise "Settings.json not found in data-dir; cannot apply config transaction")
      copyFileCreateNew settingsLive (.snapshot .settings)
      let endpointExisted ← snapshotEndpoint request.manageEndpoint
      let manifest := ⟨request.dataDir, true, request.manageEndpoint, endpointExisted⟩
      writeCfgManifest manifest
      pure manifest : OwnedTask CfgManifest) owned).Meets (settingsContract (Safe request before))
      (PreparationEnds request before) disk := by
  have notManifest : FileName.snapshot .settings ≠ .cfgManifest := by decide
  have inserted : ∀ part, Preparing before (disk.insert (.rollback (.snapshot .settings)) (.file part)) :=
    fun part => preparing.insert notManifest _
  have here : disk.lookup settingsLive = before.lookup settingsLive := preparing.1 _ rfl
  refine owned_then_meets (keep_meets (classify_meets preparing.safe ?_ preparing))
  cases kind : kindOf (disk.lookup settingsLive) with
  | missing => exact preparing
  | directory => exact preparing
  | reparse => exact preparing
  | other => exact preparing
  | file =>
      refine owned_then_meets (copyFileCreateNew_meets (fun wrong => nomatch wrong) preparing.safe
        (fun part => (inserted part).safe) (fun content owned source => ?_) (fun _ => preparing)
        fun _ part => inserted part)
      have existed : before.isFile settingsLive = true := by
        rw [Disk.isFile, ← here, kind]
        rfl
      refine owned_then_meets (snapshotEndpoint_meets (inserted content) (snapshotOf_insert here source)
        (fun owned after preparing settings endpoint => ?_) fun _ _ preparing => preparing)
      exact writeCfgManifest_meets preparing existed settings endpoint

/-- Preparing touches nothing but the rollback directory. -/
theorem prepareSettings_meets {owned : Owned} (preparing : Preparing before disk) :
    (prepareSettings request owned).Meets (settingsContract (Safe request before))
      (PreparationEnds request before) disk := by
  have notManifest : FileName.cfgMarker ≠ .cfgManifest := by decide
  have marked : ∀ part, Preparing before (disk.insert (.rollback .cfgMarker) (.file part)) :=
    fun part => preparing.insert notManifest _
  refine owned_then_meets (owned_then_meets (createOwnedFile_meets preparing.safe (fun _ owned => ?_)
    fun _ => preparing))
  refine keep_meets (writeAll_meets (marked _).safe ?_ fun _ part => ?_)
  · rw [AList.insert_insert]
    exact snapshotSettings_meets (marked _)
  · rw [AList.insert_insert]
    exact marked part

/-- The replacements keep the invariant, and end with the new content. -/
theorem replaceSettings_meets (prepared : Prepared request before disk) :
    (replaceSettings request).Meets (settingsContract (Safe request before))
      (fun outcome after => Safe request before after ∧
        (outcome = .ok () → NewSettings request before after)) disk := by
  refine then_meets (stageAndAtomicallyReplace_meets stable_safe rfl prepared.safe
    (fun content after source _ same settingsNow => ?_)
    fun _ after same => ⟨stable_safe _ _ same prepared.safe, fun wrong => nomatch wrong⟩)
  have safe := stable_safe_settings _ _ same prepared.safe
  have endpoint : after.lookup endpointLive = before.lookup endpointLive :=
    (same _ rfl).trans prepared.endpoint
  have given : before.content? (.replacement .settings) = some content := by
    rw [Disk.content?, ← prepared.safe.replacements, ← Disk.content?, source]
  change (if request.manageEndpoint then _ else _ : Task Unit).Meets _ _ _
  cases managed : request.manageEndpoint with
  | false =>
      refine ⟨safe, fun _ => ⟨⟨content, given, settingsNow⟩, ?_⟩⟩
      rw [managed, if_neg Bool.false_ne_true]
      exact endpoint
  | true =>
      refine stageAndAtomicallyReplace_meets stable_safe rfl safe
        (fun content' final source' replaceable sameEnd endpointNow => ?_)
        fun _ final sameEnd => ⟨stable_safe _ _ sameEnd safe, fun wrong => nomatch wrong⟩
      have given' : before.content? (.replacement .endpoint) = some content' := by
        rw [Disk.content?, ← safe.replacements, ← Disk.content?, source']
      have changes : EndpointChanges request before := ⟨managed, endpoint ▸ replaceable endpointSeen⟩
      have isFile : Replaceable (final.lookup endpointLive) := by
        rw [endpointNow]
        exact .inr rfl
      refine ⟨safe.replaceEndpoint sameEnd changes isFile, fun _ => ⟨⟨content, given, ?_⟩, ?_⟩⟩
      · exact (sameEnd _ rfl).trans settingsNow
      · rw [managed, if_pos rfl]
        exact ⟨content', given', endpointNow⟩

/-- Undoing keeps the invariant, whether it succeeds or not. -/
theorem undoSettings_meets (safe : Safe request before disk) :
    (undoSettings (publishedManifest request before)).Meets (settingsContract (Safe request before))
      (fun _ after => Safe request before after) disk := by
  refine then_meets (stageAndAtomicallyReplace_meets stable_safe rfl safe
    (fun content after _ _ same _ => ?_) fun _ after same => stable_safe _ _ same safe)
  have safeAfter := stable_safe_settings _ _ same safe
  change (if (request.manageEndpoint && (request.manageEndpoint && before.isFile endpointLive))
    then _ else _ : Task Unit).Meets _ _ _
  split
  · rename_i existed
    simp only [Bool.and_eq_true] at existed
    have changes : EndpointChanges request before := ⟨existed.1, .inr (beq_iff_eq.mp existed.2.2)⟩
    refine stageAndAtomicallyReplace_meets stable_safe rfl safeAfter
      (fun content' final _ _ sameEnd endpointNow => ?_) fun _ final sameEnd => stable_safe _ _ sameEnd safeAfter
    refine safeAfter.replaceEndpoint sameEnd changes ?_
    rw [endpointNow]
    exact .inr rfl
  · exact safeAfter

/-- An apply that returns success leaves the new content. -/
theorem applySettings_meets (preparing : Preparing before disk) :
    (applySettings request).Meets (settingsContract (Safe request before))
      (fun outcome after => Safe request before after ∧
        (outcome = .ok 0 → NewSettings request before after)) disk := by
  have preparingDirectory : Preparing before (disk.insert .rollbackDir .directory) := by
    refine ⟨preparing.1.trans (sameBut_insert rfl disk _), ?_⟩
    rw [AList.lookup_insert_ne (by decide)]
    exact preparing.2
  have created : createDirectoryExclusive.Meets (settingsContract (Safe request before))
      (fun _ after => Preparing before after) disk := by
    refine then_meets (createDirectory_meets preparing.safe (fun _ => ?_) fun answer refused => ?_)
    · refine then_meets ⟨preparingDirectory.safe, fun kind _ => ?_⟩
      cases kind <;> exact preparingDirectory
    · cases answer with
      | created => exact absurd rfl refused
      | «exists» => exact preparing
      | failed => exact preparing
  refine Meets.attempt created fun outcome after preparing => ?_
  cases outcome with
  | error what => exact ⟨preparing.safe, fun wrong => nomatch wrong⟩
  | ok _ =>
      refine then_meets (attemptOwned_meets ((prepareSettings_meets preparing).mono fun outcome prepared ended => ?_))
      cases outcome with
      | error thrown =>
          have cleanup : (bestEffortDeleteCreatedDirectory thrown.2).Meets
              (settingsContract (Safe request before)) (fun _ cleaned => Preparing before cleaned) prepared :=
            bestEffortDeleteCreatedDirectory_meets shrinks_preparing (fun _ left => left.safe) ended
          refine then_meets (cleanup.mono fun outcome cleaned left => ?_)
          cases outcome with
          | ok _ => exact ⟨left.safe, fun wrong => nomatch wrong⟩
          | error _ => exact ⟨left.safe, fun wrong => nomatch wrong⟩
      | ok result =>
          obtain ⟨manifest, owned⟩ := result
          obtain ⟨rfl, ready⟩ := ended
          refine Meets.attempt (replaceSettings_meets ready) fun outcome replaced ended => ?_
          cases outcome with
          | ok _ => exact ⟨ended.1, fun _ => ended.2 rfl⟩
          | error what =>
              refine Meets.attempt (undoSettings_meets ended.1) fun outcome undone safe => ?_
              exact ⟨safe, fun wrong => nomatch wrong⟩

/-- The checks before the directory is created change nothing. -/
theorem settingsApplyCommand_meets (preparing : Preparing before disk) :
    (settingsApplyCommand request).Meets (settingsContract (Safe request before))
      (fun outcome after => Safe request before after ∧
        (outcome = .ok 0 → NewSettings request before after)) disk := by
  have safe : Safe request before disk := preparing.safe
  have refused : ∀ what : String, Safe request before disk ∧
      ((.error what : Except String Nat) = .ok 0 → NewSettings request before disk) :=
    fun what => ⟨safe, fun wrong => nomatch wrong⟩
  refine then_meets (requireDirectory_meets safe (fun _ => ?_) refused)
  refine then_meets (requireRegularFile_meets safe (fun _ _ => ?_) refused)
  refine then_meets (checkRollbackDir_meets safe ?_ refused)
  change (if request.manageEndpoint then _ else _ : Task Nat).Meets _ _ _
  split
  · refine then_meets (requireRegularFile_meets safe (fun _ _ => ?_) refused)
    exact applySettings_meets preparing
  · exact applySettings_meets preparing

end Recovery

/-! ## Runs -/

/-- The apply has returned success and no rollback was started since. -/
def HasApplied (history : History) : Prop :=
  (.apply, .returned 0) ∈ history ∧ ∀ entry ∈ history, entry.1 ≠ .rollback

/-- What holds between the commands. -/
structure SettingsIdle (request : SettingsRequest) (before : Disk) (history : History) (disk : Disk) :
    Prop where
  begun : history = [] → Preparing before disk
  commitSafe : CommitSafe request before (HasRestored history) (HasApplied history) disk

/-- What holds while a command runs. -/
def SettingsDuring (request : SettingsRequest) (before : Disk) (command : Command) (history : History)
    (disk : Disk) : Prop :=
  match command with
  | .apply => Safe request before disk
  | .rollback => RollbackSafe request before (HasRestored history) disk
  | .commit => CommitSafe request before (HasRestored history) (HasApplied history) disk

theorem hasApplied_of_cons {history : History} {entry : Command × Ending String Nat}
    (applied : HasApplied (entry :: history)) : entry.1 ≠ .rollback ∧
      (entry = (.apply, .returned 0) ∨ HasApplied history) := by
  obtain ⟨member, others⟩ := applied
  refine ⟨others entry List.mem_cons_self, ?_⟩
  rcases List.mem_cons.mp member with same | earlier
  · exact .inl same.symm
  · exact .inr ⟨earlier, fun other there => others other (List.mem_cons_of_mem _ there)⟩

/-- After an apply nothing has been restored, and it has applied if it returned success. -/
theorem commitSafe_of_apply {request : SettingsRequest} {before disk : Disk}
    {ended : Ending String Nat} (safe : Safe request before disk)
    (new : ended = .returned 0 → NewSettings request before disk) :
    CommitSafe request before (HasRestored [(.apply, ended)]) (HasApplied [(.apply, ended)]) disk := by
  refine ⟨⟨safe, fun restored => ?_⟩, fun applied => new ?_⟩
  · rcases hasRestored_of_cons restored with wrong | wrong
    · cases wrong
    · cases wrong
  · rcases (hasApplied_of_cons applied).2 with same | wrong
    · exact (Prod.mk.inj same).2
    · cases wrong.1

/-- After a rollback both files are restored if it returned success, and nothing is applied. -/
theorem commitSafe_of_rollback {request : SettingsRequest} {before disk : Disk} {history : History}
    {ended : Ending String Nat} (safe : RollbackSafe request before (HasRestored history) disk)
    (same : ended = .returned 0 → SameSettings before disk) :
    CommitSafe request before (HasRestored ((.rollback, ended) :: history))
      (HasApplied ((.rollback, ended) :: history)) disk := by
  refine ⟨⟨safe.1, fun restored => ?_⟩, fun applied => absurd rfl (hasApplied_of_cons applied).1⟩
  rcases hasRestored_of_cons restored with new | earlier
  · exact same (Prod.mk.inj new).2
  · exact safe.2 earlier

/-- After a commit everything holds as before it. -/
theorem commitSafe_of_commit {request : SettingsRequest} {before disk : Disk} {history : History}
    {ended : Ending String Nat}
    (safe : CommitSafe request before (HasRestored history) (HasApplied history) disk) :
    CommitSafe request before (HasRestored ((.commit, ended) :: history))
      (HasApplied ((.commit, ended) :: history)) disk := by
  refine ⟨⟨safe.1.1, fun restored => ?_⟩, fun applied => ?_⟩
  · rcases hasRestored_of_cons restored with wrong | earlier
    · cases wrong
    · exact safe.1.2 earlier
  · rcases (hasApplied_of_cons applied).2 with wrong | earlier
    · cases wrong
    · exact safe.2 earlier

/-- The three commands keep what holds between them. -/
theorem settings_keeps (request : SettingsRequest) (before : Disk) :
    Invocations.Keeps Disk.handler (settingsProgram request) startable EndpointSeen
      (SettingsIdle request before) (SettingsDuring request before) where
  meets := by
    intro command history disk may idle
    cases command with
    | apply =>
        obtain rfl : history = [] := List.isEmpty_iff.mp may
        refine (settingsApplyCommand_meets (idle.begun rfl)).mono fun outcome after ended => ?_
        refine ⟨⟨fun wrong => absurd wrong (List.cons_ne_nil _ _), ?_⟩, ended.1⟩
        exact commitSafe_of_apply ended.1 fun zero => ended.2 (returned_zero_of_ending zero)
    | rollback =>
        refine (settingsRollbackCommand_meets idle.commitSafe.1).mono fun outcome after ended => ?_
        refine ⟨⟨fun wrong => absurd wrong (List.cons_ne_nil _ _), ?_⟩, ended.1⟩
        exact commitSafe_of_rollback ended.1 fun zero => ended.2 (returned_zero_of_ending zero)
    | commit =>
        refine (settingsCommitCommand_meets idle.commitSafe).mono fun outcome after ended => ?_
        exact ⟨⟨fun wrong => absurd wrong (List.cons_ne_nil _ _), commitSafe_of_commit ended⟩, ended⟩
  stopped := by
    intro command history disk may during
    refine ⟨fun wrong => absurd wrong (List.cons_ne_nil _ _), ?_⟩
    cases command with
    | apply =>
        obtain rfl : history = [] := List.isEmpty_iff.mp may
        exact commitSafe_of_apply during fun wrong => nomatch wrong
    | rollback => exact commitSafe_of_rollback during fun wrong => nomatch wrong
    | commit => exact commitSafe_of_commit during

/-- In every run of an apply followed by rollbacks and commits, each of which may
stop at any call, in which the attributes of the endpoint file are read where they
are asked for: a rollback that returns success leaves both files as they were
before the apply for good, and an apply that returns success leaves the new
content through every commit. -/
theorem settingsTransaction_crashSafe (request : SettingsRequest) (before : FreshDisk)
    (steps : List (Invoke Command Choice))
    (seen : (settingsRuns request).Conforms (Invocations.Permits EndpointSeen) (.initial before.1) steps) :
    (settingsRuns request).Throughout (CrashSafe request before.1) (.initial before.1) steps := by
  have begun : Preparing before.1 before.1 := ⟨SameBut.refl _ _, lookup_of_fresh before _⟩
  have fresh : SettingsIdle request before.1 [] before.1 :=
    ⟨fun _ => begun, ⟨begun.safe, fun wrong => nomatch wrong⟩, fun wrong => nomatch wrong.1⟩
  refine Invocations.throughout_of_meets (settings_keeps request before.1) fresh seen fun s invariant => ?_
  obtain ⟨disk, running, history⟩ := s
  have holds : CommitSafe request before.1 (HasRestored history)
      (HasApplied history ∧ ∀ current ∈ running, current.1 ≠ .rollback) disk := by
    cases running with
    | none => exact ⟨invariant.commitSafe.1, fun applied => invariant.commitSafe.2 applied.1⟩
    | some current =>
        obtain ⟨command, rest⟩ := current
        have during := Invocations.during_of_meets invariant.2
        cases command with
        | apply =>
            obtain rfl : history = [] := List.isEmpty_iff.mp invariant.1
            exact ⟨⟨during, fun wrong => nomatch wrong⟩, fun wrong => nomatch wrong.1.1⟩
        | rollback => exact ⟨during, fun applied => absurd rfl (applied.2 _ rfl)⟩
        | commit => exact ⟨during.1, fun applied => during.2 applied.1⟩
  exact ⟨holds.1.2, fun applied others free => holds.2 ⟨⟨applied, others⟩, free⟩⟩

/-! ## An update of an installation -/

instance (disk : Disk) (call : Call) (choice : Choice) : Decidable (EndpointSeen disk call choice) := by
  unfold EndpointSeen
  split <;> infer_instance

/-- New settings and a new endpoint for `C:\Data`. -/
def endpointUpdate : SettingsRequest := ⟨"C:\\Data".toList, true⟩

/-- A data directory with settings and an endpoint. -/
def installedDisk : FreshDisk := ⟨[(settingsLive, "[]"), (endpointLive, "old.example:15001"),
    (.replacement .settings, "[15002]"), (.replacement .endpoint, "new.example:15002")].foldr
    (fun file disk => AList.insert file.1 (.file (.bytes (Word.ofAscii file.2))) disk)
    (AList.insert .dataDir .directory ∅), by decide +kernel⟩

/-- The apply stops after it has replaced the settings, and a rollback follows. -/
theorem settingsTransaction_crashSafe_stopped :
    (settingsRuns endpointUpdate).Throughout (CrashSafe endpointUpdate installedDisk.1) (.initial installedDisk.1)
      (.start .apply :: List.replicate 33 smooth ++ [.stop, .start .rollback] ++ List.replicate 23 smooth) :=
  settingsTransaction_crashSafe endpointUpdate installedDisk _ (by decide +kernel)

/-- The attributes of the endpoint file cannot be read when its snapshot is to be
taken: apply and rollback return success, and the file is gone. -/
theorem not_crashSafe_unseen :
    ¬ ∀ (request : SettingsRequest) (before : FreshDisk) (steps : List (Invoke Command Choice))
      (final : Invocations Command Call Answer String Nat Disk),
      (settingsRuns request).run (.initial before.1) steps = some final → CrashSafe request before.1 final := by
  intro claim
  have outcome : ((settingsRuns endpointUpdate).run (.initial installedDisk.1)
      (.start .apply :: List.replicate 14 smooth ++ failing :: List.replicate 22 smooth ++
        .start .rollback :: List.replicate 17 smooth)).map (fun final =>
        (final.history, final.state.isFile endpointLive, installedDisk.1.isFile endpointLive)) =
        some ([(.rollback, .returned 0), (.apply, .returned 0)], false, true) := by
    decide +kernel
  obtain ⟨final, done, seen⟩ := Option.map_eq_some_iff.mp outcome
  simp only [Prod.mk.injEq] at seen
  obtain ⟨history, now, was⟩ := seen
  have restored : (.rollback, .returned 0) ∈ final.history := by
    rw [history]
    exact List.mem_cons_self
  have same := ((claim endpointUpdate installedDisk _ final done).restored restored).2
  rw [Disk.isFile, same] at now
  exact absurd (now.symm.trans was) (by decide)

end SearchEngine.Runtime
