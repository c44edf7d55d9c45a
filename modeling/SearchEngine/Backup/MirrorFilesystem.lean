import SearchEngine.Backup.MirrorExact

/-!
# A completed run mirrors its source

In the file system mode the fingerprint of a source is its SHA-256, and a copy is
accepted only between two equal fingerprints. When the source does not change during
a run, and the run completes, the mirror holds a copy of every source file with its
digest and nothing else.
-/

namespace SearchEngine.Backup

open SearchEngine.Lib

variable {Content : Type} (hashing : Hashing Content)

/-! ## Reading the source -/

/-- The fingerprint of `inspectFilesystemSource`. -/
def contentFingerprint (digest : Name) : Name := "sha256-v1:".toList ++ digest

/-- `inspectFilesystemSource`: what two passes of `sha256File` read. -/
def inspectFilesystemSource (first second : Except Name Content) : Except Name SourceState :=
  match first with
  | .error message => .error message
  | .ok one =>
  match second with
  | .error message => .error message
  | .ok two =>
  if hashing.size one != hashing.size two || hashing.sha256 one != hashing.sha256 two then
    .error "source changed while it was inspected".toList
  else .ok ⟨true, contentFingerprint (hashing.sha256 two)⟩

/-- One turn of the loop of `materializeFilesystem`: the passes before and after the
copy, and what the destination then holds. -/
structure CopyAttempt (Content : Type) where
  before : Except Name Content × Except Name Content
  copyError : Option Name
  copied : Content
  after : Except Name Content × Except Name Content
  hashesCopy : Bool

/-- The loop of `materializeFilesystem` over the attempts that are left. -/
def copyAttempts : List (CopyAttempt Content) → Except Name (Materialized Content)
  | [] => .error "source changed during all copy attempts".toList
  | attempt :: rest =>
      match inspectFilesystemSource hashing attempt.before.1 attempt.before.2 with
      | .error message => .error message
      | .ok before =>
      match attempt.copyError with
      | some message => .error ("cannot copy source: ".toList ++ message)
      | none =>
      match inspectFilesystemSource hashing attempt.after.1 attempt.after.2 with
      | .error _ => copyAttempts rest
      | .ok after =>
      if attempt.hashesCopy && before.fingerprint == after.fingerprint &&
          before.fingerprint == contentFingerprint (hashing.sha256 attempt.copied) then
        .ok ⟨attempt.copied, "stable-file".toList, after.fingerprint, true⟩
      else copyAttempts rest

/-- `materializeFilesystem` makes three attempts. -/
def materializeFilesystem (attempts : List (CopyAttempt Content)) : Except Name (Materialized Content) :=
  copyAttempts hashing (attempts.take 3)

/-- The answers about a file are those of the file system mode. -/
structure FileAnswers.InMode (answers : FileAnswers Content) (reads : Except Name Content × Except Name Content)
    (attempts : List (CopyAttempt Content)) : Prop where
  inspected : answers.inspected = inspectFilesystemSource hashing reads.1 reads.2
  materialized : answers.materialized = materializeFilesystem hashing attempts

/-- Nothing but the given content is read. -/
def ReadsOnly (content : Content) (reads : Except Name Content × Except Name Content) : Prop :=
  (∀ found, reads.1 = .ok found → found = content) ∧ ∀ found, reads.2 = .ok found → found = content

/-- The answers are those of the file system mode for a source that keeps its content. -/
def FileAnswers.FromSource (answers : FileAnswers Content) (content : Content) : Prop :=
  ∃ reads attempts, answers.InMode hashing reads attempts ∧ ReadsOnly content reads ∧
    ∀ attempt ∈ attempts, ReadsOnly content attempt.before ∧ ReadsOnly content attempt.after

variable {hashing}

theorem inspect_eq_ok {reads : Except Name Content × Except Name Content} {state : SourceState}
    (done : inspectFilesystemSource hashing reads.1 reads.2 = .ok state) :
    ∃ found, reads.2 = .ok found ∧ state.fingerprint = contentFingerprint (hashing.sha256 found) := by
  unfold inspectFilesystemSource at done
  split at done
  · cases done
  split at done
  · cases done
  · next found read =>
      split at done
      · cases done
      · obtain rfl := Except.ok.inj done
        exact ⟨found, read, rfl⟩

theorem contentFingerprint_injective : Function.Injective contentFingerprint :=
  fun _ _ same => List.append_cancel_left same

/-- A copy that is accepted has the digest in its fingerprint. -/
theorem copyAttempts_eq_ok {attempts : List (CopyAttempt Content)} {materialized : Materialized Content}
    (done : copyAttempts hashing attempts = .ok materialized) :
    materialized.sourceFingerprint = contentFingerprint (hashing.sha256 materialized.content) ∧
      ∃ attempt ∈ attempts, ∃ found, attempt.after.2 = .ok found ∧
        hashing.sha256 found = hashing.sha256 materialized.content := by
  induction attempts with
  | nil => cases done
  | cons attempt rest ih =>
      have later : copyAttempts hashing rest = .ok materialized →
          materialized.sourceFingerprint = contentFingerprint (hashing.sha256 materialized.content) ∧
            ∃ other ∈ attempt :: rest, ∃ found, other.after.2 = .ok found ∧
              hashing.sha256 found = hashing.sha256 materialized.content := by
        intro done
        obtain ⟨marked, other, member, found⟩ := ih done
        exact ⟨marked, other, List.mem_cons_of_mem _ member, found⟩
      rw [copyAttempts] at done
      split at done
      · cases done
      split at done
      · cases done
      split at done
      · exact later done
      · next after inspected =>
          split at done
          · next stable =>
              simp only [Bool.and_eq_true, beq_iff_eq] at stable
              obtain rfl := Except.ok.inj done
              obtain ⟨found, read, fingerprint⟩ := inspect_eq_ok inspected
              have marked := stable.1.2.symm.trans stable.2
              refine ⟨marked, attempt, List.mem_cons_self, found, read, ?_⟩
              exact contentFingerprint_injective (fingerprint.symm.trans marked)
          · exact later done

/-- The fingerprint of a source that keeps its content names its digest. -/
theorem FileAnswers.FromSource.fingerprint {answers : FileAnswers Content} {content : Content}
    (fromSource : answers.FromSource hashing content) {state : SourceState}
    (inspected : answers.inspected = .ok state) :
    state.fingerprint = contentFingerprint (hashing.sha256 content) := by
  obtain ⟨reads, attempts, inMode, only, -⟩ := fromSource
  rw [inMode.inspected] at inspected
  obtain ⟨found, read, fingerprint⟩ := inspect_eq_ok inspected
  rw [fingerprint, only.2 found read]

/-- A copy of a source that keeps its content has its digest. -/
theorem FileAnswers.FromSource.digest {answers : FileAnswers Content} {content : Content}
    (fromSource : answers.FromSource hashing content) {materialized : Materialized Content}
    (captured : answers.materialized = .ok materialized) :
    hashing.sha256 materialized.content = hashing.sha256 content := by
  obtain ⟨reads, attempts, inMode, -, only⟩ := fromSource
  rw [inMode.materialized] at captured
  obtain ⟨-, attempt, member, found, read, same⟩ := copyAttempts_eq_ok captured
  rw [← same, (only attempt (List.mem_of_mem_take member)).2.2 found read]

/-! ## What every record satisfies -/

/-- The record that a decision makes. -/
def Visit.record? : Visit Content → Option HistoryFile
  | .sameContent file _ | .publish _ file => some file
  | .failed _ | .unchanged => none

/-- Every record of a map satisfies a predicate. -/
def AllRecords (P : HistoryFile → Prop) (files : SortedMap Name HistoryFile) : Prop :=
  ∀ path file, files.find? path = some file → P file

theorem AllRecords.insert {P : HistoryFile → Prop} {files : SortedMap Name HistoryFile}
    (all : AllRecords P files) {relative : Name} {file : HistoryFile} (here : P file) :
    AllRecords P (files.insert relative file) := by
  intro path other found
  rw [SortedMap.find?_insert] at found
  split at found
  · rwa [← Option.some.inj found]
  · exact all path other found

theorem AllRecords.erase {P : HistoryFile → Prop} {files : SortedMap Name HistoryFile}
    (all : AllRecords P files) (relative : Name) : AllRecords P (files.erase relative) := by
  intro path other found
  rw [SortedMap.find?_erase] at found
  split at found
  · cases found
  · exact all path other found

/-- Every record of the run of a phase satisfies a predicate. -/
def PhaseRecords (P : HistoryFile → Prop) : UpdatePhase Content → Prop
  | .idle => True
  | .visiting run _ | .sweeping run _ | .writing run | .pointing run | .collecting run =>
      AllRecords P run.state.files
  | .archiving run _ _ file _ | .replacing run _ _ file _ _ => AllRecords P run.state.files ∧ P file

/-- Every record of the manifests and of the run satisfies a predicate. -/
structure MirrorUpdate.Records (P : HistoryFile → Prop) (s : MirrorUpdate Content) : Prop where
  manifest : AllRecords P s.store.recorded
  points : ∀ manifest ∈ s.store.points.manifests, AllRecords P manifest.current.files
  phase : PhaseRecords P s.phase

/-- The visit of a file makes only records that satisfy a predicate. -/
def MirrorUpdate.VisitRecords (hashing : Hashing Content) (P : HistoryFile → Prop) (s : MirrorUpdate Content) :
    UpdateAction Content → Prop
  | .visitFile answers =>
      match s.phase with
      | .visiting run ((relative, .file) :: _) =>
          ∀ file ∈ (visitFile hashing s.store run relative answers).record?, P file
      | _ => True
  | _ => True

theorem phaseRecords_afterVisit {P : HistoryFile → Prop} {run : UpdateRun} (all : AllRecords P run.state.files)
    (rest : List (Name × EntryKind)) : PhaseRecords P (MirrorUpdate.afterVisit run rest : UpdatePhase Content) := by
  cases rest with
  | nil => exact all
  | cons entry rest => exact all

theorem MirrorStore.manifests_archive {store after : MirrorStore Content} {relative : Name}
    {answers : ArchiveAnswers} {object : Option Name}
    (done : store.archiveCurrentFile hashing relative answers = .ok (after, object)) :
    after.recorded = store.recorded ∧ after.points = store.points := by
  unfold archiveCurrentFile at done
  split at done
  · cases done
  split at done
  · obtain ⟨rfl, -⟩ := Prod.mk.inj (Except.ok.inj done)
    exact ⟨rfl, rfl⟩
  split at done
  · cases done
  dsimp only at done
  split at done
  · cases done
  split at done
  · split at done
    · cases done
    split at done
    · cases done
    obtain ⟨rfl, -⟩ := Prod.mk.inj (Except.ok.inj done)
    exact ⟨rfl, rfl⟩
  · split at done
    · cases done
    obtain ⟨rfl, -⟩ := Prod.mk.inj (Except.ok.inj done)
    exact ⟨rfl, rfl⟩

namespace MirrorUpdate.Records

variable {P : HistoryFile → Prop} {s next : MirrorUpdate Content}

theorem published {run : UpdateRun} (manifest : AllRecords P s.store.recorded)
    (points : ∀ manifest ∈ s.store.points.manifests, AllRecords P manifest.current.files)
    (all : AllRecords P run.state.files) (done : s.published run = some next) : next.Records P := by
  unfold MirrorUpdate.published at done
  split at done
  · obtain ⟨stepped, begun, rfl⟩ := Option.map_eq_some_iff.mp done
    refine ⟨manifest, fun point member => ?_, all⟩
    rcases MirrorPoints.mem_manifests_step begun member with old | ⟨mirrorRun, tier, creating, -⟩
    · exact points point old
    · rw [MirrorPoints.phase_of_begin begun] at creating
      cases creating
  · obtain rfl := Option.some.inj done
    exact ⟨manifest, points, trivial⟩

theorem pointed {run : UpdateRun} {action : PointStep HistoryState} {points : MirrorPoints HistoryState}
    (records : s.Records P) (sound : s.Sound hashing) (pointing : s.phase = .pointing run)
    (stepped : s.store.points.step action = some points) : (s.pointed run points).Records P := by
  have phase := records.phase
  have current := sound.phase
  rw [pointing] at phase current
  have manifests : ∀ manifest ∈ points.manifests, AllRecords P manifest.current.files := by
    intro manifest member
    rcases MirrorPoints.mem_manifests_step stepped member with old | ⟨mirrorRun, tier, creating, same⟩
    · exact records.points manifest old
    · rw [same, current.2.2 mirrorRun tier creating]
      exact phase
  unfold MirrorUpdate.pointed
  dsimp only
  split
  · split
    · exact ⟨records.manifest, manifests, phase⟩
    · exact ⟨records.manifest, manifests, trivial⟩
  · exact ⟨records.manifest, manifests, records.phase⟩

theorem start (P : HistoryFile → Prop) (tiers : List HistoryTier) :
    (MirrorUpdate.start tiers : MirrorUpdate Content).Records P where
  manifest := nofun
  points := fun _ member => absurd member (no_manifests_start tiers)
  phase := trivial

/-- Records come from visits, and stay as they are or vanish otherwise. -/
theorem step {action : UpdateAction Content} (records : s.Records P) (sound : s.Sound hashing)
    (visited : s.VisitRecords hashing P action)
    (stepped : MirrorUpdate.step hashing s action = some next) : next.Records P := by
  have phase := records.phase
  cases action with
  | begin time timestamp entries =>
      simp only [MirrorUpdate.step] at stepped
      split at stepped
      · obtain rfl := Option.some.inj stepped
        refine ⟨records.manifest, records.points, phaseRecords_afterVisit ?_ entries⟩
        have manifest := records.manifest
        rw [MirrorStore.recorded] at manifest
        cases written : s.store.manifest with
        | none =>
            rw [written] at manifest
            exact manifest
        | some state =>
            rw [written] at manifest
            exact manifest
      · cases stepped
  | visitDirectory error =>
      simp only [MirrorUpdate.step] at stepped
      split at stepped
      · next run relative rest visiting =>
          rw [visiting] at phase
          obtain rfl := Option.some.inj stepped
          cases error with
          | none =>
              refine ⟨records.manifest, records.points, phaseRecords_afterVisit ?_ rest⟩
              exact phase
          | some message =>
              refine ⟨records.manifest, records.points, phaseRecords_afterVisit ?_ rest⟩
              exact phase
      · cases stepped
  | visitFile answers =>
      simp only [MirrorUpdate.step] at stepped
      split at stepped
      · next run relative rest visiting =>
          rw [visiting] at phase
          simp only [MirrorUpdate.VisitRecords, visiting] at visited
          obtain rfl := Option.some.inj stepped
          refine ⟨records.manifest, records.points, ?_⟩
          have same : visitFile hashing s.store
              { run with sourceFiles := run.sourceFiles ++ [relative] } relative answers =
            visitFile hashing s.store run relative answers := rfl
          dsimp only
          rw [same]
          generalize visitFile hashing s.store run relative answers = visit at visited
          cases visit with
          | failed message =>
              apply phaseRecords_afterVisit
              exact phase
          | unchanged =>
              apply phaseRecords_afterVisit
              exact phase
          | sameContent file changed =>
              cases changed with
              | false =>
                  apply phaseRecords_afterVisit
                  exact phase
              | true =>
                  apply phaseRecords_afterVisit
                  exact phase.insert (visited file rfl)
          | publish staged file => exact ⟨phase, visited file rfl⟩
      · cases stepped
  | archive parentError answers =>
      simp only [MirrorUpdate.step] at stepped
      split at stepped
      · next run relative staged file rest archiving =>
          rw [archiving] at phase
          split at stepped
          · obtain rfl := Option.some.inj stepped
            refine ⟨records.manifest, records.points, phaseRecords_afterVisit ?_ rest⟩
            exact phase.1
          · split at stepped
            · obtain rfl := Option.some.inj stepped
              refine ⟨records.manifest, records.points, phaseRecords_afterVisit ?_ rest⟩
              exact phase.1
            · next store archived done =>
                obtain rfl := Option.some.inj stepped
                exact ⟨by rw [(MirrorStore.manifests_archive done).1]; exact records.manifest,
                  by rw [(MirrorStore.manifests_archive done).2]; exact records.points, phase⟩
      · cases stepped
  | replace replacement =>
      simp only [MirrorUpdate.step] at stepped
      split at stepped
      · next run relative staged file archived rest replacing =>
          rw [replacing] at phase
          split at stepped
          · obtain rfl := Option.some.inj stepped
            refine ⟨records.manifest, records.points, phaseRecords_afterVisit ?_ rest⟩
            exact phase.1.insert phase.2
          · obtain rfl := Option.some.inj stepped
            refine ⟨records.manifest, records.points, phaseRecords_afterVisit ?_ rest⟩
            exact phase.1
      · cases stepped
  | sweep answers =>
      simp only [MirrorUpdate.step] at stepped
      split at stepped
      · next run relative rest sweeping =>
          rw [sweeping] at phase
          split at stepped
          · obtain rfl := Option.some.inj stepped
            exact ⟨records.manifest, records.points, phase⟩
          · split at stepped
            · obtain rfl := Option.some.inj stepped
              exact ⟨records.manifest, records.points, phase⟩
            · next store archived done =>
                obtain rfl := Option.some.inj stepped
                exact ⟨by rw [(MirrorStore.manifests_archive done).1]; exact records.manifest,
                  by rw [(MirrorStore.manifests_archive done).2]; exact records.points, phase.erase relative⟩
      · cases stepped
  | verify sameEntries =>
      simp only [MirrorUpdate.step] at stepped
      split at stepped
      · next run sweeping =>
          rw [sweeping] at phase
          obtain rfl := Option.some.inj stepped
          refine ⟨records.manifest, records.points, ?_⟩
          rw [PhaseRecords, MirrorUpdate.files_verified]
          exact phase
      · cases stepped
  | write error =>
      simp only [MirrorUpdate.step] at stepped
      split at stepped
      · next run writing =>
          rw [writing] at phase
          split at stepped
          · split at stepped
            · obtain rfl := Option.some.inj stepped
              exact ⟨records.manifest, records.points, trivial⟩
            · exact published (by exact phase) (by exact records.points) phase stepped
          · exact published records.manifest records.points phase stepped
      · cases stepped
  | create answers =>
      simp only [MirrorUpdate.step] at stepped
      split at stepped
      · next run pointing =>
          obtain ⟨points, taken, rfl⟩ := Option.map_eq_some_iff.mp stepped
          exact records.pointed sound pointing taken
      · cases stepped
  | rotate answers =>
      simp only [MirrorUpdate.step] at stepped
      split at stepped
      · next run pointing =>
          obtain ⟨points, taken, rfl⟩ := Option.map_eq_some_iff.mp stepped
          exact records.pointed sound pointing taken
      · cases stepped
  | collect answers =>
      simp only [MirrorUpdate.step] at stepped
      split at stepped
      · obtain rfl := Option.some.inj stepped
        exact ⟨records.manifest, records.points, trivial⟩
      · cases stepped
  | stop =>
      obtain rfl := Option.some.inj stepped
      exact ⟨records.manifest, records.points, trivial⟩

end MirrorUpdate.Records

/-! ## A run over a source that does not change -/

/-- A reliable fingerprint is that of the recorded digest. -/
def HistoryFile.Marked (file : HistoryFile) : Prop :=
  file.fingerprintReliable = true → file.sourceFingerprint = contentFingerprint file.sha256

/-- A file that is visited is read in the file system mode. -/
def MirrorUpdate.InMode (hashing : Hashing Content) : UpdateAction Content → Prop
  | .visitFile answers => ∃ reads attempts, answers.InMode hashing reads attempts
  | _ => True

/-- The run goes on, and a file that is visited is read from the source. -/
def MirrorUpdate.Undisturbed (hashing : Hashing Content) (source : Name → Content) (s : MirrorUpdate Content) :
    UpdateAction Content → Prop
  | .begin .. | .stop => False
  | .visitFile answers =>
      match s.phase with
      | .visiting _ ((relative, .file) :: _) => answers.FromSource hashing (source relative)
      | _ => True
  | _ => True

/-- A decision names the digest: the record that it makes or relies on has it. -/
def Visit.Names (previous : Option HistoryFile) (digest : Name) : Visit Content → Prop
  | .failed _ => True
  | .unchanged => ∀ file, previous = some file → file.sha256 = digest
  | .sameContent file _ | .publish _ file => file.sha256 = digest

/-- A decision names the digest of the source. -/
theorem visitFile_names {store : MirrorStore Content} {run : UpdateRun} {relative : Name}
    {answers : FileAnswers Content} {content : Content} (fromSource : answers.FromSource hashing content)
    (marked : ∀ file, run.state.files.find? relative = some file → file.Marked) :
    (visitFile hashing store run relative answers).Names (run.state.files.find? relative)
      (hashing.sha256 content) := by
  unfold visitFile
  split
  · trivial
  · next source inspected =>
      have fingerprint := fromSource.fingerprint inspected
      split
      · trivial
      dsimp only
      split
      · trivial
      split
      · trivial
      split
      · next same =>
          intro file found
          rw [found, Option.any_some] at same
          simp only [Bool.and_eq_true, beq_iff_eq] at same
          have recorded := marked file found same.1.2
          exact contentFingerprint_injective (recorded.symm.trans (same.2.symm.trans fingerprint))
      split
      · trivial
      · next materialized captured =>
          have digest := fromSource.digest captured
          split
          · trivial
          split
          · next existing found =>
              obtain ⟨-, same⟩ := Option.filter_eq_some_iff.mp found
              simp only [Bool.and_eq_true, beq_iff_eq] at same
              exact same.1.1.trans digest
          · exact digest

variable {source : Name → Content} {entries : List (Name × EntryKind)}

/-- The records of the files visited so far have the digests of the source. -/
def UpdateRun.Follows (hashing : Hashing Content) (source : Name → Content) (run : UpdateRun)
    (current : Option Name) : Prop :=
  run.state.errors = [] → ∀ path ∈ run.sourceFiles, current ≠ some path →
    ∃ file, run.state.files.find? path = some file ∧ file.sha256 = hashing.sha256 (source path)

/-- The files visited so far and those that are left are the files of the source. -/
def UpdateRun.Lists (entries : List (Name × EntryKind)) (run : UpdateRun) (rest : List (Name × EntryKind)) : Prop :=
  ∀ path, (path, EntryKind.file) ∈ entries ↔ path ∈ run.sourceFiles ∨ (path, .file) ∈ rest

/-- A clean run records the files of the source with their digests. -/
structure HistoryState.Mirrors (hashing : Hashing Content) (source : Name → Content)
    (entries : List (Name × EntryKind)) (state : HistoryState) : Prop where
  recorded : ∀ path, (path, EntryKind.file) ∈ entries →
    ∃ file, state.files.find? path = some file ∧ file.sha256 = hashing.sha256 (source path)
  nothing : ∀ path file, state.files.find? path = some file → (path, EntryKind.file) ∈ entries

/-- The mirror is exactly the source. -/
structure MirrorStore.Mirrors (hashing : Hashing Content) (source : Name → Content)
    (entries : List (Name × EntryKind)) (store : MirrorStore Content) : Prop where
  copied : ∀ path, (path, EntryKind.file) ∈ entries →
    ∃ content, store.data path = some content ∧ hashing.sha256 content = hashing.sha256 (source path)
  nothing : ∀ path, (path, EntryKind.file) ∉ entries → store.data path = none

/-- The last run completed. -/
def UpdateStatus.isComplete : UpdateStatus → Bool
  | .unchanged | .mirrorUpdated => true
  | .failed _ => false

/-- What a run over the source has achieved in each phase. -/
def MirrorUpdate.Follows (hashing : Hashing Content) (source : Name → Content)
    (entries : List (Name × EntryKind)) (s : MirrorUpdate Content) : Prop :=
  match s.phase with
  | .idle => s.result.any UpdateStatus.isComplete = true → s.store.Mirrors hashing source entries
  | .visiting run rest => run.Follows hashing source none ∧ run.Lists entries rest
  | .archiving run relative _ file rest =>
      run.Follows hashing source (some relative) ∧ run.Lists entries rest ∧
        file.sha256 = hashing.sha256 (source relative)
  | .replacing run relative _ file _ rest =>
      run.Follows hashing source (some relative) ∧ run.Lists entries rest ∧
        file.sha256 = hashing.sha256 (source relative)
  | .sweeping run _ => run.Follows hashing source none ∧ run.Lists entries []
  | .writing run | .pointing run | .collecting run =>
      run.state.complete = true → run.state.Mirrors hashing source entries

section Follows

variable {store : MirrorStore Content} {run : UpdateRun} {relative : Name} {rest : List (Name × EntryKind)}

theorem UpdateRun.Follows.fail (run : UpdateRun) (text : Name) (current : Option Name) :
    (run.fail text).Follows hashing source current := by
  intro clean
  simp [UpdateRun.fail] at clean

theorem UpdateRun.Follows.close (follows : run.Follows hashing source (some relative)) {file : HistoryFile}
    (found : run.state.files.find? relative = some file)
    (digest : file.sha256 = hashing.sha256 (source relative)) : run.Follows hashing source none := by
  intro clean path listed _
  by_cases same : path = relative
  · subst same
    exact ⟨file, found, digest⟩
  · exact follows clean path listed fun other => same (Option.some.inj other).symm

theorem UpdateRun.Follows.insert (follows : run.Follows hashing source (some relative)) {file : HistoryFile}
    (digest : file.sha256 = hashing.sha256 (source relative)) :
    (run.record relative file).Follows hashing source none := by
  intro clean path listed _
  simp only [UpdateRun.record, SortedMap.find?_insert]
  by_cases same : relative = path
  · subst same
    exact ⟨file, if_pos rfl, digest⟩
  · obtain ⟨other, found, names⟩ := follows clean path listed fun here => same (Option.some.inj here)
    exact ⟨other, by rw [if_neg same, found], names⟩

theorem UpdateRun.Lists.tail (lists : run.Lists entries ((relative, .directory) :: rest)) :
    run.Lists entries rest := by
  intro path
  rw [lists path, List.mem_cons]
  simp

theorem UpdateRun.Lists.visit (lists : run.Lists entries ((relative, .file) :: rest)) :
    ({ run with sourceFiles := run.sourceFiles ++ [relative] } : UpdateRun).Lists entries rest := by
  intro path
  simp only [lists path, List.mem_cons, List.mem_append, List.not_mem_nil, or_false, Prod.mk.injEq, and_true]
  tauto

theorem follows_afterVisit {result : Option UpdateStatus} (follows : run.Follows hashing source none)
    (lists : run.Lists entries rest) :
    (⟨store, MirrorUpdate.afterVisit run rest, result⟩ : MirrorUpdate Content).Follows hashing source entries := by
  cases rest with
  | nil => exact ⟨follows, lists⟩
  | cons entry rest => exact ⟨follows, lists⟩

theorem follows_decided {result : Option UpdateStatus}
    (follows : run.Follows hashing source (some relative)) (lists : run.Lists entries rest)
    {visit : Visit Content} (legal : visit.Legal hashing (run.state.files.find? relative))
    (names : visit.Names (run.state.files.find? relative) (hashing.sha256 (source relative))) :
    (⟨store, MirrorUpdate.decided run relative rest visit, result⟩ : MirrorUpdate Content).Follows hashing
      source entries := by
  cases visit with
  | failed message => exact follows_afterVisit (.fail run _ none) lists
  | unchanged =>
      obtain ⟨file, found⟩ := Option.isSome_iff_exists.mp legal
      exact follows_afterVisit (follows.close found (names file found)) lists
  | sameContent file changed =>
      cases changed with
      | false =>
          obtain ⟨existing, found, same⟩ := legal
          exact follows_afterVisit (follows.close found (same.symm.trans names)) lists
      | true => exact follows_afterVisit (follows.insert names) lists
  | publish staged file => exact ⟨follows, lists, names⟩

/-- Once every record is swept, a clean run records the source. -/
theorem mirrors_verified (follows : run.Follows hashing source none) (lists : run.Lists entries [])
    (swept : run.state.errors = [] → ∀ path ∈ run.state.files.keys, path ∈ run.sourceFiles ∨ path ∈ ([] : List Name))
    (sameEntries : Except Name Bool) (complete : (MirrorUpdate.verified run sameEntries).state.complete = true) :
    (MirrorUpdate.verified run sameEntries).state.Mirrors hashing source entries := by
  have clean : run.state.errors = [] := by
    simp only [MirrorUpdate.verified] at complete
    split at complete
    · simp [UpdateRun.fail] at complete
    · simp [UpdateRun.fail] at complete
    · exact List.isEmpty_iff.mp complete
  constructor
  · intro path listed
    rw [MirrorUpdate.files_verified]
    exact follows clean path (((lists path).mp listed).resolve_right List.not_mem_nil) (by simp)
  · intro path file found
    rw [MirrorUpdate.files_verified] at found
    have recorded : path ∈ run.state.files.keys := SortedMap.mem_keys_iff.mpr ⟨file, found⟩
    exact (lists path).mpr (.inl ((swept clean path recorded).resolve_right List.not_mem_nil))

end Follows

namespace MirrorUpdate.Follows

variable {s next : MirrorUpdate Content}

theorem published {run : UpdateRun}
    (mirrors : run.state.complete = true → run.state.Mirrors hashing source entries)
    (done : s.published run = some next) : next.Follows hashing source entries := by
  unfold MirrorUpdate.published at done
  split at done
  · obtain ⟨points, -, rfl⟩ := Option.map_eq_some_iff.mp done
    exact mirrors
  · obtain rfl := Option.some.inj done
    intro complete
    cases complete

theorem pointed {run : UpdateRun} {points : MirrorPoints HistoryState} (idle : s.result = none)
    (pointing : s.phase = .pointing run)
    (mirrors : run.state.complete = true → run.state.Mirrors hashing source entries) :
    (s.pointed run points).Follows hashing source entries := by
  unfold MirrorUpdate.pointed
  dsimp only
  split
  · split
    · exact mirrors
    · intro complete
      dsimp only at complete
      rw [idle] at complete
      cases complete
  · rw [MirrorUpdate.Follows]
    dsimp only
    rw [pointing]
    exact mirrors

/-- Every action of an undisturbed run keeps what the run has achieved. -/
theorem step {action : UpdateAction Content} (follows : s.Follows hashing source entries)
    (sound : s.Sound hashing) (tidy : s.Tidy hashing) (records : s.Records HistoryFile.Marked)
    (waiting : s.phase ≠ .idle → s.result = none) (undisturbed : s.Undisturbed hashing source action)
    (stepped : MirrorUpdate.step hashing s action = some next) : next.Follows hashing source entries := by
  unfold MirrorUpdate.Follows at follows
  cases action with
  | begin time timestamp entries => exact undisturbed.elim
  | stop => exact undisturbed.elim
  | visitDirectory error =>
      simp only [MirrorUpdate.step] at stepped
      split at stepped
      · next run relative rest visiting =>
          simp only [visiting] at follows
          obtain rfl := Option.some.inj stepped
          cases error with
          | none => exact follows_afterVisit follows.1 follows.2.tail
          | some message => exact follows_afterVisit (.fail _ _ none) follows.2.tail
      · cases stepped
  | visitFile answers =>
      simp only [MirrorUpdate.step] at stepped
      split at stepped
      · next run relative rest visiting =>
          simp only [visiting] at follows
          simp only [MirrorUpdate.Undisturbed, visiting] at undisturbed
          have marked := records.phase
          rw [visiting] at marked
          obtain rfl := Option.some.inj stepped
          have listed : ({ run with sourceFiles := run.sourceFiles ++ [relative] } : UpdateRun).Follows hashing
              source (some relative) := by
            intro clean path member apart
            rcases List.mem_append.mp member with before | here
            · exact follows.1 clean path before (by simp)
            · exact absurd (congrArg some (List.mem_singleton.mp here).symm) apart
          exact follows_decided listed follows.2.visit (visitFile_legal s.store _ relative answers)
            (visitFile_names undisturbed (marked relative))
      · cases stepped
  | archive parentError answers =>
      simp only [MirrorUpdate.step] at stepped
      split at stepped
      · next run relative staged file rest archiving =>
          simp only [archiving] at follows
          split at stepped
          · obtain rfl := Option.some.inj stepped
            exact follows_afterVisit (.fail _ _ none) follows.2.1
          · split at stepped
            · obtain rfl := Option.some.inj stepped
              exact follows_afterVisit (.fail _ _ none) follows.2.1
            · obtain rfl := Option.some.inj stepped
              exact follows
      · cases stepped
  | replace replacement =>
      simp only [MirrorUpdate.step] at stepped
      split at stepped
      · next run relative staged file archived rest replacing =>
          simp only [replacing] at follows
          split at stepped
          · obtain rfl := Option.some.inj stepped
            exact follows_afterVisit (follows.1.insert follows.2.2) follows.2.1
          · obtain rfl := Option.some.inj stepped
            exact follows_afterVisit (.fail _ _ none) follows.2.1
      · cases stepped
  | sweep answers =>
      simp only [MirrorUpdate.step] at stepped
      split at stepped
      · next run relative rest sweeping =>
          simp only [sweeping] at follows
          split at stepped
          · obtain rfl := Option.some.inj stepped
            exact follows
          · next gone =>
              split at stepped
              · obtain rfl := Option.some.inj stepped
                exact ⟨.fail _ _ none, follows.2⟩
              · obtain rfl := Option.some.inj stepped
                refine ⟨fun clean path listed _ => ?_, follows.2⟩
                have other : relative ≠ path := fun same => gone (List.contains_iff_mem.mpr (same ▸ listed))
                obtain ⟨file, found, names⟩ := follows.1 clean path listed (by simp)
                exact ⟨file, by simp only [SortedMap.find?_erase, if_neg other, found], names⟩
      · cases stepped
  | verify sameEntries =>
      simp only [MirrorUpdate.step] at stepped
      split at stepped
      · next run sweeping =>
          simp only [sweeping] at follows
          have phase := sound.phase
          rw [sweeping] at phase
          obtain rfl := Option.some.inj stepped
          exact mirrors_verified follows.1 follows.2 phase.2 sameEntries
      · cases stepped
  | write error =>
      simp only [MirrorUpdate.step] at stepped
      split at stepped
      · next run writing =>
          simp only [writing] at follows
          split at stepped
          · split at stepped
            · obtain rfl := Option.some.inj stepped
              intro complete
              cases complete
            · exact published follows stepped
          · exact published follows stepped
      · cases stepped
  | create answers =>
      simp only [MirrorUpdate.step] at stepped
      split at stepped
      · next run pointing =>
          simp only [pointing] at follows
          have idle := waiting (by rw [pointing]; simp)
          obtain ⟨points, taken, rfl⟩ := Option.map_eq_some_iff.mp stepped
          exact pointed idle pointing follows
      · cases stepped
  | rotate answers =>
      simp only [MirrorUpdate.step] at stepped
      split at stepped
      · next run pointing =>
          simp only [pointing] at follows
          have idle := waiting (by rw [pointing]; simp)
          obtain ⟨points, taken, rfl⟩ := Option.map_eq_some_iff.mp stepped
          exact pointed idle pointing follows
      · cases stepped
  | collect answers =>
      simp only [MirrorUpdate.step] at stepped
      split at stepped
      · next run collecting =>
          simp only [collecting] at follows
          have phase := sound.phase
          rw [collecting] at phase
          obtain ⟨finished, complete⟩ := phase
          have covered : PhaseTidy hashing s.store s.phase := tidy
          rw [collecting] at covered
          obtain ⟨state, there, same⟩ := finished.manifest (.inl rfl)
          obtain rfl := Option.some.inj stepped
          intro _
          constructor
          · intro path listed
            obtain ⟨file, found, names⟩ := (follows complete).recorded path listed
            obtain ⟨content, copy, hashed⟩ := finished.mirrored complete path file found
            exact ⟨content, copy, hashed.trans names⟩
          · intro path absent
            by_contra copied
            obtain ⟨content, copy⟩ := Option.ne_none_iff_exists'.mp copied
            obtain ⟨file, found, -⟩ := covered path content copy
            rw [MirrorStore.recorded, there, Option.map_some, Option.getD_some, same] at found
            exact absent ((follows complete).nothing path file found)
      · cases stepped

end MirrorUpdate.Follows

/-! ## Whole runs -/

namespace MirrorUpdate

/-- A run that is not over has no result yet. -/
theorem result_step {s next : MirrorUpdate Content} {action : UpdateAction Content}
    (waiting : s.phase ≠ .idle → s.result = none) (stepped : MirrorUpdate.step hashing s action = some next) :
    next.phase ≠ .idle → next.result = none := by
  have running : ∀ {phase : UpdatePhase Content}, s.phase = phase → phase ≠ .idle → s.result = none :=
    fun same other => waiting (same ▸ other)
  have published : ∀ {state : MirrorUpdate Content} {run : UpdateRun}, state.published run = some next →
      state.result = none → next.phase ≠ .idle → next.result = none := by
    intro state run done idle
    unfold MirrorUpdate.published at done
    split at done
    · obtain ⟨points, -, rfl⟩ := Option.map_eq_some_iff.mp done
      exact fun _ => idle
    · obtain rfl := Option.some.inj done
      exact fun unfinished => absurd rfl unfinished
  have pointed : ∀ {run : UpdateRun} {points : MirrorPoints HistoryState}, s.result = none →
      (s.pointed run points).result = none := by
    intro run points idle
    unfold MirrorUpdate.pointed
    dsimp only
    split
    · split <;> exact idle
    · exact idle
  intro unfinished
  cases action with
  | begin time timestamp entries =>
      simp only [MirrorUpdate.step] at stepped
      split at stepped
      · obtain rfl := Option.some.inj stepped
        rfl
      · cases stepped
  | visitDirectory error =>
      simp only [MirrorUpdate.step] at stepped
      split at stepped
      · next visiting =>
          obtain rfl := Option.some.inj stepped
          exact running visiting (by simp)
      · cases stepped
  | visitFile answers =>
      simp only [MirrorUpdate.step] at stepped
      split at stepped
      · next visiting =>
          obtain rfl := Option.some.inj stepped
          exact running visiting (by simp)
      · cases stepped
  | archive parentError answers =>
      simp only [MirrorUpdate.step] at stepped
      split at stepped
      · next archiving =>
          have idle := running archiving (by simp)
          split at stepped
          · obtain rfl := Option.some.inj stepped
            exact idle
          · split at stepped <;> obtain rfl := Option.some.inj stepped <;> exact idle
      · cases stepped
  | replace replacement =>
      simp only [MirrorUpdate.step] at stepped
      split at stepped
      · next replacing =>
          have idle := running replacing (by simp)
          split at stepped <;> obtain rfl := Option.some.inj stepped <;> exact idle
      · cases stepped
  | sweep answers =>
      simp only [MirrorUpdate.step] at stepped
      split at stepped
      · next sweeping =>
          have idle := running sweeping (by simp)
          split at stepped
          · obtain rfl := Option.some.inj stepped
            exact idle
          · split at stepped <;> obtain rfl := Option.some.inj stepped <;> exact idle
      · cases stepped
  | verify sameEntries =>
      simp only [MirrorUpdate.step] at stepped
      split at stepped
      · next sweeping =>
          obtain rfl := Option.some.inj stepped
          exact running sweeping (by simp)
      · cases stepped
  | write error =>
      simp only [MirrorUpdate.step] at stepped
      split at stepped
      · next writing =>
          have idle := running writing (by simp)
          split at stepped
          · split at stepped
            · obtain rfl := Option.some.inj stepped
              exact absurd rfl unfinished
            · exact published stepped idle unfinished
          · exact published stepped idle unfinished
      · cases stepped
  | create answers =>
      simp only [MirrorUpdate.step] at stepped
      split at stepped
      · next pointing =>
          obtain ⟨points, taken, rfl⟩ := Option.map_eq_some_iff.mp stepped
          exact pointed (running pointing (by simp))
      · cases stepped
  | rotate answers =>
      simp only [MirrorUpdate.step] at stepped
      split at stepped
      · next pointing =>
          obtain ⟨points, taken, rfl⟩ := Option.map_eq_some_iff.mp stepped
          exact pointed (running pointing (by simp))
      · cases stepped
  | collect answers =>
      simp only [MirrorUpdate.step] at stepped
      split at stepped
      · obtain rfl := Option.some.inj stepped
        exact absurd rfl unfinished
      · cases stepped
  | stop =>
      obtain rfl := Option.some.inj stepped
      exact absurd rfl unfinished

/-- What calm runs in the file system mode keep. -/
structure Steady (hashing : Hashing Content) (s : MirrorUpdate Content) : Prop where
  sound : s.Sound hashing
  tidy : s.Tidy hashing
  records : s.Records HistoryFile.Marked
  waiting : s.phase ≠ .idle → s.result = none

/-- A calm action whose visits mark their records keeps the state steady. -/
theorem Steady.step {s next : MirrorUpdate Content} {action : UpdateAction Content} (steady : s.Steady hashing)
    (calm : s.Calm hashing action) (visited : s.VisitRecords hashing HistoryFile.Marked action)
    (stepped : MirrorUpdate.step hashing s action = some next) : next.Steady hashing where
  sound := steady.sound.step (steady.tidy.faithful calm) stepped
  tidy := steady.tidy.step steady.sound calm stepped
  records := steady.records.step steady.sound visited stepped
  waiting := result_step steady.waiting stepped

end MirrorUpdate

end SearchEngine.Backup
