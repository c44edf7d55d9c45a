import SearchEngine.Backup.MirrorUpdate
import SearchEngine.Backup.PointRetention

/-!
# Restore points stay restorable

What a run archives, publishes and cleans away never costs a restore point its
contents, wherever a run stops and whichever calls fail, provided the cleanup reads
every point and a run keeps a current copy without publishing it again only if it
has the recorded digest.
-/

namespace SearchEngine.Backup

open SearchEngine.Lib

/-! ## The manifests of the points -/

section Points

variable {Content : Type}

theorem TierHistory.mem_manifests {h : TierHistory Content} {manifest : PointManifest Content} :
    manifest ∈ h.manifests ↔ ∃ point ∈ h.points, point.manifest = some manifest :=
  List.mem_filterMap

theorem TierHistory.mem_manifests_create {h : TierHistory Content} {run : MirrorRun Content}
    {answers : CreationAnswers} {manifest : PointManifest Content}
    (member : manifest ∈ (h.createRestorePoint run answers).1.manifests) :
    manifest ∈ h.manifests ∨ manifest.current = run.current := by
  obtain ⟨point, there, recorded⟩ := mem_manifests.mp member
  unfold createRestorePoint at there
  split at there
  · exact .inl (mem_manifests.mpr ⟨point, there, recorded⟩)
  dsimp only at there
  split at there
  · next left _ =>
      cases left with
      | false => exact .inl (mem_manifests.mpr ⟨point, there, recorded⟩)
      | true =>
          rcases List.mem_append.mp there with old | new
          · exact .inl (mem_manifests.mpr ⟨point, old, recorded⟩)
          · obtain rfl := List.mem_singleton.mp new
            cases recorded
  · rcases List.mem_append.mp there with old | new
    · exact .inl (mem_manifests.mpr ⟨point, old, recorded⟩)
    · obtain rfl := List.mem_singleton.mp new
      obtain rfl := Option.some.inj recorded
      exact .inr rfl

theorem TierHistory.mem_manifests_rotate {h : TierHistory Content} {answers : RotationAnswers}
    {manifest : PointManifest Content} (member : manifest ∈ (h.rotateRestorePoints answers).1.manifests) :
    manifest ∈ h.manifests := by
  obtain ⟨point, there, recorded⟩ := mem_manifests.mp member
  obtain ⟨gone, -, left⟩ := readable_removeFronts answers.removals (h.surplus answers.sees) h.points
  have readable : point.isReadable = true := by rw [PointDirectory.isReadable, recorded]; rfl
  have kept := List.mem_filter.mpr ⟨there, readable⟩
  rw [TierHistory.rotateRestorePoints] at kept
  dsimp only at kept
  rw [left] at kept
  exact mem_manifests.mpr ⟨point, List.mem_of_mem_filter (List.mem_of_mem_filter kept), recorded⟩

theorem MirrorPoints.mem_manifests {points : MirrorPoints Content} {manifest : PointManifest Content} :
    manifest ∈ points.manifests ↔ ∃ h ∈ points.tiers, manifest ∈ h.manifests :=
  List.mem_flatMap

theorem MirrorPoints.mem_manifests_set {points : MirrorPoints Content} {tier : Nat}
    {h : TierHistory Content} {phase : MirrorPhase Content} {completed : Bool}
    {manifest : PointManifest Content}
    (member : manifest ∈ (⟨points.tiers.set tier h, phase, completed⟩ : MirrorPoints Content).manifests) :
    manifest ∈ points.manifests ∨ manifest ∈ h.manifests := by
  obtain ⟨other, there, recorded⟩ := mem_manifests.mp member
  rcases List.mem_or_eq_of_mem_set there with old | rfl
  · exact .inl (mem_manifests.mpr ⟨other, old, recorded⟩)
  · exact .inr recorded

/-- A step adds no manifest but that of the run it is in. -/
theorem MirrorPoints.mem_manifests_step {points next : MirrorPoints Content} {action : PointStep Content}
    (stepped : points.step action = some next) {manifest : PointManifest Content}
    (member : manifest ∈ next.manifests) :
    manifest ∈ points.manifests ∨
      ∃ run tier, points.phase = .creating run tier ∧ manifest.current = run.current := by
  cases action with
  | begin run =>
      simp only [step] at stepped
      split at stepped
      · obtain rfl := Option.some.inj stepped
        obtain ⟨h, there, recorded⟩ := mem_manifests.mp member
        obtain ⟨old, place, rfl⟩ := List.mem_map.mp there
        exact .inl (mem_manifests.mpr ⟨old, place, recorded⟩)
      · cases stepped
  | create answers =>
      simp only [step] at stepped
      split at stepped
      · next run tier creating =>
          split at stepped
          · obtain rfl := Option.some.inj stepped
            exact .inl member
          · next h found =>
              obtain rfl := Option.some.inj stepped
              rcases mem_manifests_set member with old | new
              · exact .inl old
              · rcases TierHistory.mem_manifests_create new with old | current
                · exact .inl (mem_manifests.mpr ⟨h, List.mem_of_getElem? found, old⟩)
                · exact .inr ⟨run, tier, creating, current⟩
      · cases stepped
  | rotate answers =>
      simp only [step] at stepped
      split at stepped
      · split at stepped
        · obtain rfl := Option.some.inj stepped
          exact .inl member
        · next h found =>
            obtain rfl := Option.some.inj stepped
            rcases mem_manifests_set member with old | new
            · exact .inl old
            · have old := TierHistory.mem_manifests_rotate new
              exact .inl (mem_manifests.mpr ⟨h, List.mem_of_getElem? found, old⟩)
      · cases stepped
  | stop =>
      obtain rfl := Option.some.inj stepped
      exact .inl member

theorem MirrorPoints.phase_of_begin {points next : MirrorPoints Content} {run : MirrorRun Content}
    (begun : points.step (.begin run) = some next) : points.phase = .idle := by
  simp only [step] at begun
  split at begun
  · assumption
  · cases begun

/-- A run creates its points with one current manifest. -/
theorem MirrorPoints.current_of_step {points next : MirrorPoints Content} {action : PointStep Content}
    {current : Content}
    (begins : ∀ run, action = .begin run → run.current = current)
    (creates : ∀ run tier, points.phase = .creating run tier → run.current = current)
    (stepped : points.step action = some next) :
    ∀ run tier, next.phase = .creating run tier → run.current = current := by
  intro run tier creating
  cases action with
  | begin run' =>
      simp only [step] at stepped
      split at stepped
      · obtain rfl := Option.some.inj stepped
        obtain ⟨rfl, -⟩ := MirrorPhase.creating.inj creating
        exact begins _ rfl
      · cases stepped
  | create answers =>
      simp only [step] at stepped
      split at stepped
      · next run' tier' before =>
          split at stepped
          · obtain rfl := Option.some.inj stepped
            cases creating
          · obtain rfl := Option.some.inj stepped
            dsimp only at creating
            split at creating
            · obtain ⟨rfl, -⟩ := MirrorPhase.creating.inj creating
              exact creates _ _ before
            · cases creating
      · cases stepped
  | rotate answers =>
      simp only [step] at stepped
      split at stepped
      · split at stepped
        · obtain rfl := Option.some.inj stepped
          cases creating
        · obtain rfl := Option.some.inj stepped
          dsimp only at creating
          split at creating
          · cases creating
          · cases creating
      · cases stepped
  | stop =>
      obtain rfl := Option.some.inj stepped
      cases creating

end Points

/-! ## The invariant -/

section Runs

variable {Content : Type} {hashing : Hashing Content}

/-- What holds of a run between two entries, or while one file is being replaced. -/
structure UpdateRun.Progress (hashing : Hashing Content) (store : MirrorStore Content) (run : UpdateRun)
    (current : Option Name) : Prop where
  recorded : ∀ path file, run.state.files.find? path = some file → store.Restorable hashing path file.sha256
  visited : run.state.errors = [] → ∀ path ∈ run.sourceFiles, current ≠ some path →
    ∃ file, run.state.files.find? path = some file ∧ store.Holds hashing path file.sha256
  unwritten : run.metadataChanged = false → ∃ state, store.manifest = some state ∧ state.files = run.state.files

/-- A run that has visited and swept everything, before and after its manifest is written. -/
structure UpdateRun.Finished (hashing : Hashing Content) (store : MirrorStore Content) (run : UpdateRun)
    (written : Bool) : Prop where
  recorded : ∀ path file, run.state.files.find? path = some file → store.Restorable hashing path file.sha256
  mirrored : run.state.complete = true → ∀ path file, run.state.files.find? path = some file →
    store.Holds hashing path file.sha256
  manifest : written = true ∨ run.metadataChanged = false →
    ∃ state, store.manifest = some state ∧ state.files = run.state.files

/-- What holds of the run in each phase. -/
def PhaseSound (hashing : Hashing Content) (store : MirrorStore Content) : UpdatePhase Content → Prop
  | .idle => True
  | .visiting run _ => run.Progress hashing store none
  | .archiving run relative staged file _ =>
      run.Progress hashing store (some relative) ∧ hashing.sha256 staged = file.sha256
  | .replacing run relative staged file _ _ =>
      run.Progress hashing store (some relative) ∧ hashing.sha256 staged = file.sha256 ∧
        store.data relative = none
  | .sweeping run rest =>
      run.Progress hashing store none ∧
        (run.state.errors = [] → ∀ path ∈ run.state.files.keys, path ∈ run.sourceFiles ∨ path ∈ rest)
  | .writing run => run.Finished hashing store false
  | .pointing run =>
      run.Finished hashing store true ∧ run.state.complete = true ∧
        ∀ points tier, store.points.phase = .creating points tier → points.current = run.state
  | .collecting run => run.Finished hashing store true ∧ run.state.complete = true

/-- Objects are stored under their digests, and every content that a point, the
manifest or the current run names can be restored. -/
structure MirrorUpdate.Sound (hashing : Hashing Content) (s : MirrorUpdate Content) : Prop where
  objects : s.store.ObjectsSound hashing
  points : ∀ path digest, s.store.References path digest → s.store.Restorable hashing path digest
  manifest : ∀ state, s.store.manifest = some state → ∀ path file, state.files.find? path = some file →
    s.store.Restorable hashing path file.sha256
  phase : PhaseSound hashing s.store s.phase

/-- The decision about a file leaves the current copy as it is. -/
def Visit.isKept : Visit Content → Bool
  | .unchanged | .sameContent .. => true
  | .failed _ | .publish .. => false

/-- What the restorability rests on: a copy that a run keeps without publishing it
again has the recorded digest, files only stand where objects belong, and the cleanup
reads every point. -/
def MirrorUpdate.Faithful (hashing : Hashing Content) (s : MirrorUpdate Content) : UpdateAction Content → Prop
  | .visitFile answers =>
      match s.phase with
      | .visiting run ((relative, .file) :: _) =>
          (visitFile hashing s.store run relative answers).isKept = true →
            ∀ file ∈ run.state.files.find? relative, s.store.Holds hashing relative file.sha256
      | _ => True
  | .archive _ answers => answers.blocked = false
  | .sweep answers => answers.blocked = false
  | .collect answers => s.store.ReadsAll answers
  | _ => True

instance (s : MirrorUpdate Content) (action : UpdateAction Content) : Decidable (s.Faithful hashing action) :=
  match action with
  | .visitFile answers =>
      match visiting : s.phase with
      | .visiting run ((relative, .file) :: rest) =>
          decidable_of_iff ((visitFile hashing s.store run relative answers).isKept = true →
            ∀ file ∈ run.state.files.find? relative, s.store.Holds hashing relative file.sha256)
            (by simp only [MirrorUpdate.Faithful, visiting])
      | .visiting _ [] | .visiting _ ((_, .directory) :: _) | .idle | .archiving .. | .replacing .. |
          .sweeping .. | .writing _ | .pointing _ | .collecting _ =>
          isTrue (by simp only [MirrorUpdate.Faithful, visiting])
  | .archive _ answers => inferInstanceAs (Decidable (answers.blocked = false))
  | .sweep answers => inferInstanceAs (Decidable (answers.blocked = false))
  | .collect answers => inferInstanceAs (Decidable (s.store.ReadsAll answers))
  | .begin .. | .visitDirectory _ | .replace _ | .verify _ | .write _ | .create _ | .rotate _ | .stop =>
      isTrue trivial

/-! ## One step -/

/-- What a decision says about the record and the staged content. -/
def Visit.Legal (hashing : Hashing Content) (previous : Option HistoryFile) : Visit Content → Prop
  | .failed _ => True
  | .unchanged => previous.isSome = true
  | .sameContent file _ => ∃ existing, previous = some existing ∧ file.sha256 = existing.sha256
  | .publish staged file => hashing.sha256 staged = file.sha256

theorem visitFile_legal (store : MirrorStore Content) (run : UpdateRun) (relative : Name)
    (answers : FileAnswers Content) :
    (visitFile hashing store run relative answers).Legal hashing (run.state.files.find? relative) := by
  unfold visitFile
  split
  · trivial
  split
  · trivial
  dsimp only
  split
  · trivial
  split
  · trivial
  split
  · next same =>
      rw [Visit.Legal]
      cases recorded : run.state.files.find? relative with
      | none =>
          rw [recorded] at same
          cases same
      | some file => rfl
  split
  · trivial
  split
  · trivial
  split
  · next existing found =>
      obtain ⟨recorded, -⟩ := Option.filter_eq_some_iff.mp found
      exact ⟨existing, recorded, rfl⟩
  · rfl

namespace UpdateRun.Progress

variable {store : MirrorStore Content} {run : UpdateRun} {current : Option Name}

theorem start (sound : ∀ state, store.manifest = some state → ∀ path file,
      state.files.find? path = some file → store.Restorable hashing path file.sha256)
    (time : Name) (timestamp : Int) :
    (UpdateRun.start time timestamp store.manifest).Progress hashing store none := by
  cases written : store.manifest with
  | none =>
      exact
        { recorded := by
            intro path file recorded
            simp [UpdateRun.start] at recorded
          visited := by
            intro _ path listed
            cases listed
          unwritten := nofun }
  | some state =>
      exact
        { recorded := sound state written
          visited := by
            intro _ path listed
            cases listed
          unwritten := fun _ => ⟨state, written, rfl⟩ }

/-- An error ends what the entries promise. -/
theorem fail (progress : run.Progress hashing store current) (text : Name) :
    (run.fail text).Progress hashing store none where
  recorded := progress.recorded
  visited := by
    intro none
    simp [UpdateRun.fail] at none
  unwritten := progress.unwritten

/-- A file whose record holds of its copy has been visited. -/
theorem close {relative : Name} (progress : run.Progress hashing store (some relative)) {file : HistoryFile}
    (recorded : run.state.files.find? relative = some file)
    (holds : store.Holds hashing relative file.sha256) : run.Progress hashing store none where
  recorded := progress.recorded
  visited := by
    intro clean path listed _
    by_cases same : path = relative
    · subst same
      exact ⟨file, recorded, holds⟩
    · exact progress.visited clean path listed fun other => same (Option.some.inj other).symm
  unwritten := progress.unwritten

/-- A record that gets another fingerprint keeps its digest. -/
theorem renew {relative : Name} (progress : run.Progress hashing store current) {existing file : HistoryFile}
    (recorded : run.state.files.find? relative = some existing) (same : file.sha256 = existing.sha256) :
    ({ run.record relative file with metadataChanged := true } : UpdateRun).Progress hashing store current where
  recorded := by
    intro path found there
    simp only [UpdateRun.record, SortedMap.find?_insert] at there
    split at there
    · next at_ =>
        subst at_
        rw [← Option.some.inj there, same]
        exact progress.recorded _ _ recorded
    · exact progress.recorded path found there
  visited := by
    intro clean path listed apart
    obtain ⟨found, there, holds⟩ := progress.visited clean path listed apart
    simp only [UpdateRun.record, SortedMap.find?_insert]
    by_cases at_ : relative = path
    · subst at_
      obtain rfl := Option.some.inj (recorded.symm.trans there)
      exact ⟨file, if_pos rfl, by rw [same]; exact holds⟩
    · exact ⟨found, by rw [if_neg at_]; exact there, holds⟩
  unwritten := nofun

end UpdateRun.Progress

/-- A change of the store that costs no content and, but at one path, no copy. -/
structure MirrorStore.Keeps (hashing : Hashing Content) (before after : MirrorStore Content)
    (relative : Name) : Prop where
  objects : after.ObjectsSound hashing
  manifest : after.manifest = before.manifest
  points : after.points = before.points
  restorable : ∀ path digest, before.Restorable hashing path digest → after.Restorable hashing path digest
  holds : ∀ path digest, path ≠ relative → before.Holds hashing path digest → after.Holds hashing path digest

theorem MirrorStore.Archived.keeps {before after : MirrorStore Content} {relative : Name}
    (archived : before.Archived hashing relative after) (sound : before.ObjectsSound hashing) :
    before.Keeps hashing after relative where
  objects := archived.sound sound
  manifest := archived.manifest
  points := archived.points
  restorable := fun _ _ => archived.restorable sound
  holds := fun _ _ other => archived.holds other

theorem MirrorStore.keeps_setData {store : MirrorStore Content} {relative : Name} {copy : Option Content}
    (absent : store.data relative = none) (sound : store.ObjectsSound hashing) :
    store.Keeps hashing (store.setData relative copy) relative where
  objects := sound
  manifest := rfl
  points := rfl
  restorable := fun _ _ restorable => restorable.setData absent sound
  holds := fun _ _ other holds => holds.setData other

theorem UpdateRun.Progress.keeps {before after : MirrorStore Content} {relative : Name} {run : UpdateRun}
    (progress : run.Progress hashing before (some relative)) (keeps : before.Keeps hashing after relative) :
    run.Progress hashing after (some relative) where
  recorded := fun path file found => keeps.restorable _ _ (progress.recorded path file found)
  visited := by
    intro clean path listed apart
    obtain ⟨file, found, holds⟩ := progress.visited clean path listed apart
    exact ⟨file, found, keeps.holds _ _ (fun same => apart (congrArg some same.symm)) holds⟩
  unwritten := by
    rw [keeps.manifest]
    exact progress.unwritten

theorem UpdateRun.Progress.weaken {store : MirrorStore Content} {run : UpdateRun}
    (progress : run.Progress hashing store none) (relative : Name) :
    run.Progress hashing store (some relative) :=
  ⟨progress.recorded, fun clean path listed _ => progress.visited clean path listed nofun, progress.unwritten⟩

/-- The store of a sound state changes so that it stays sound. -/
theorem MirrorUpdate.Sound.keeps {s : MirrorUpdate Content} (sound : s.Sound hashing)
    {after : MirrorStore Content} {relative : Name} (keeps : s.store.Keeps hashing after relative)
    {phase : UpdatePhase Content} (phaseSound : PhaseSound hashing after phase)
    (result : Option UpdateStatus) : (⟨after, phase, result⟩ : MirrorUpdate Content).Sound hashing where
  objects := keeps.objects
  points := by
    intro path digest references
    rw [MirrorStore.References, keeps.points] at references
    exact keeps.restorable _ _ (sound.points path digest references)
  manifest := by
    intro state written path file found
    exact keeps.restorable _ _ (sound.manifest state (keeps.manifest ▸ written) path file found)
  phase := phaseSound

theorem MirrorUpdate.Sound.withPhase {s : MirrorUpdate Content} (sound : s.Sound hashing)
    {phase : UpdatePhase Content} (phaseSound : PhaseSound hashing s.store phase)
    (result : Option UpdateStatus) : (⟨s.store, phase, result⟩ : MirrorUpdate Content).Sound hashing :=
  ⟨sound.objects, sound.points, sound.manifest, phaseSound⟩

theorem phaseSound_afterVisit {store : MirrorStore Content} {run : UpdateRun}
    (progress : run.Progress hashing store none) (rest : List (Name × EntryKind)) :
    PhaseSound hashing store (MirrorUpdate.afterVisit run rest) := by
  cases rest with
  | nil => exact ⟨progress, fun _ path recorded => .inr recorded⟩
  | cons entry rest => exact progress

/-- The entry of a file joins the source files before the decision about it. -/
theorem UpdateRun.Progress.listed {store : MirrorStore Content} {run : UpdateRun}
    (progress : run.Progress hashing store none) (relative : Name) :
    ({ run with sourceFiles := run.sourceFiles ++ [relative] } : UpdateRun).Progress hashing store
      (some relative) where
  recorded := progress.recorded
  visited := by
    intro clean path listed apart
    rcases List.mem_append.mp listed with before | here
    · exact progress.visited clean path before nofun
    · exact absurd (congrArg some (List.mem_singleton.mp here).symm) apart
  unwritten := progress.unwritten

/-- Every decision keeps the invariant, if a copy that is kept has the recorded digest. -/
theorem phaseSound_decided {store : MirrorStore Content} {run : UpdateRun} {relative : Name}
    (progress : run.Progress hashing store (some relative)) {visit : Visit Content}
    (legal : visit.Legal hashing (run.state.files.find? relative))
    (kept : visit.isKept = true → ∀ file, run.state.files.find? relative = some file →
      store.Holds hashing relative file.sha256)
    (rest : List (Name × EntryKind)) :
    PhaseSound hashing store (MirrorUpdate.decided run relative rest visit) := by
  cases visit with
  | failed message => exact phaseSound_afterVisit (progress.fail _) rest
  | unchanged =>
      obtain ⟨file, recorded⟩ := Option.isSome_iff_exists.mp legal
      exact phaseSound_afterVisit (progress.close recorded (kept rfl file recorded)) rest
  | sameContent file changed =>
      obtain ⟨existing, recorded, same⟩ := legal
      have closed := progress.close recorded (kept rfl existing recorded)
      cases changed with
      | false => exact phaseSound_afterVisit closed rest
      | true => exact phaseSound_afterVisit (closed.renew recorded same) rest
  | publish staged file => exact ⟨progress, legal⟩

/-- A file that was published is recorded with its digest. -/
theorem UpdateRun.Progress.publish {store : MirrorStore Content} {run : UpdateRun} {relative : Name}
    {staged : Content} {file : HistoryFile}
    (progress : run.Progress hashing store (some relative)) (hashed : hashing.sha256 staged = file.sha256)
    (absent : store.data relative = none) (sound : store.ObjectsSound hashing) :
    ({ run.record relative file with dataChanged := true, metadataChanged := true } : UpdateRun).Progress
      hashing (store.setData relative (some staged)) none := by
  have keeps : store.Keeps hashing (store.setData relative (some staged)) relative :=
    MirrorStore.keeps_setData absent sound
  have kept := progress.keeps keeps
  have here : (store.setData relative (some staged)).Holds hashing relative file.sha256 :=
    ⟨staged, Function.update_self .., hashed⟩
  have soundAfter : (store.setData relative (some staged)).ObjectsSound hashing := sound
  exact
    { recorded := by
        intro path found there
        simp only [UpdateRun.record, SortedMap.find?_insert] at there
        split at there
        · next same =>
            subst same
            rw [← Option.some.inj there]
            exact (MirrorStore.restorable_iff soundAfter).mpr (.inr here)
        · exact kept.recorded path found there
      visited := by
        intro clean path listed _
        simp only [UpdateRun.record, SortedMap.find?_insert]
        by_cases same : relative = path
        · subst same
          exact ⟨file, if_pos rfl, here⟩
        · rw [if_neg same]
          exact kept.visited clean path listed fun other => same (Option.some.inj other)
      unwritten := nofun }

/-- A file that the source lost leaves the records. -/
theorem UpdateRun.Progress.erase {store : MirrorStore Content} {run : UpdateRun} {relative : Name}
    (progress : run.Progress hashing store (some relative)) (gone : relative ∉ run.sourceFiles) :
    ({ run with
        state := { run.state with files := run.state.files.erase relative }
        dataChanged := true
        metadataChanged := true } : UpdateRun).Progress hashing store none where
  recorded := by
    intro path file found
    simp only [SortedMap.find?_erase] at found
    split at found
    · cases found
    · exact progress.recorded path file found
  visited := by
    intro clean path listed _
    have other : relative ≠ path := fun same => gone (same ▸ listed)
    obtain ⟨file, found, holds⟩ := progress.visited clean path listed fun same => other (Option.some.inj same)
    exact ⟨file, by simp only [SortedMap.find?_erase, if_neg other, found], holds⟩
  unwritten := nofun

/-- A clean run that has swept every record mirrors its source. -/
theorem UpdateRun.Progress.finish {store : MirrorStore Content} {run : UpdateRun}
    (progress : run.Progress hashing store none)
    (swept : run.state.errors = [] → ∀ path ∈ run.state.files.keys, path ∈ run.sourceFiles ∨ path ∈ ([] : List Name))
    (sameEntries : Except Name Bool) :
    (MirrorUpdate.verified run sameEntries).Finished hashing store false := by
  have clean : (MirrorUpdate.verified run sameEntries).state.complete = true → run.state.errors = [] := by
    intro complete
    simp only [MirrorUpdate.verified] at complete
    split at complete
    · simp [UpdateRun.fail] at complete
    · simp [UpdateRun.fail] at complete
    · exact List.isEmpty_iff.mp complete
  have files : (MirrorUpdate.verified run sameEntries).state.files = run.state.files := by
    simp only [MirrorUpdate.verified]
    split <;> rfl
  have metadata : (MirrorUpdate.verified run sameEntries).metadataChanged = false →
      run.metadataChanged = false := by
    intro unchanged
    simp only [MirrorUpdate.verified, Bool.or_eq_false_iff] at unchanged
    obtain ⟨⟨first, -⟩, -⟩ := unchanged
    split at first <;> exact first
  exact
    { recorded := by
        rw [files]
        exact progress.recorded
      mirrored := by
        intro complete path file found
        rw [files] at found
        have recorded : path ∈ run.state.files.keys := SortedMap.mem_keys_iff.mpr ⟨file, found⟩
        have listed := (swept (clean complete) path recorded).resolve_right List.not_mem_nil
        obtain ⟨other, there, holds⟩ := progress.visited (clean complete) path listed nofun
        obtain rfl := Option.some.inj (found.symm.trans there)
        exact holds
      manifest := by
        intro either
        rw [files]
        exact progress.unwritten (metadata (either.resolve_left Bool.false_ne_true)) }

namespace MirrorUpdate.Sound

variable {s next : MirrorUpdate Content}

/-- The manifest that a run writes names what the run can restore. -/
theorem published {run : UpdateRun} {result : MirrorUpdate Content} {manifest : Option HistoryState}
    (sound : s.Sound hashing) (finished : run.Finished hashing s.store false)
    (state : ∃ state, manifest = some state ∧ state.files = run.state.files)
    (done : MirrorUpdate.published { s with store := { s.store with manifest := manifest } } run = some result) :
    result.Sound hashing := by
  have current : ∀ state, manifest = some state → ∀ path file, state.files.find? path = some file →
      s.store.Restorable hashing path file.sha256 := by
    intro other written path file found
    obtain ⟨state, there, same⟩ := state
    obtain rfl := Option.some.inj (there.symm.trans written)
    rw [same] at found
    exact finished.recorded path file found
  unfold MirrorUpdate.published at done
  split at done
  · next complete =>
      obtain ⟨points, begun, rfl⟩ := Option.map_eq_some_iff.mp done
      exact
        { objects := sound.objects
          points := by
            rintro path digest ⟨manifest, member, file, found, same⟩
            rcases MirrorPoints.mem_manifests_step begun member with old | ⟨mirrorRun, tier, creating, -⟩
            · exact sound.points path digest ⟨manifest, old, file, found, same⟩
            · rw [MirrorPoints.phase_of_begin begun] at creating
              cases creating
          manifest := current
          phase := by
            refine ⟨⟨finished.recorded, finished.mirrored, fun _ => state⟩, complete, ?_⟩
            apply MirrorPoints.current_of_step _ _ begun
            · intro mirrorRun same
              obtain rfl := PointStep.begin.inj same
              rfl
            · intro mirrorRun tier creating
              rw [MirrorPoints.phase_of_begin begun] at creating
              cases creating }
  · obtain rfl := Option.some.inj done
    exact ⟨sound.objects, sound.points, current, trivial⟩

/-- A step over the tiers adds only points of the current manifest. -/
theorem pointed {run : UpdateRun} {action : PointStep HistoryState} {points : MirrorPoints HistoryState}
    (sound : s.Sound hashing) (pointing : s.phase = .pointing run)
    (other : ∀ mirrorRun, action ≠ .begin mirrorRun) (stepped : s.store.points.step action = some points) :
    (s.pointed run points).Sound hashing := by
  have phase := sound.phase
  rw [pointing] at phase
  obtain ⟨finished, complete, current⟩ := phase
  have restorable : ∀ path digest,
      ({ s.store with points := points } : MirrorStore Content).References path digest →
        s.store.Restorable hashing path digest := by
    rintro path digest ⟨manifest, member, file, found, rfl⟩
    rcases MirrorPoints.mem_manifests_step stepped member with old | ⟨mirrorRun, tier, creating, same⟩
    · exact sound.points path _ ⟨manifest, old, file, found, rfl⟩
    · rw [same, current mirrorRun tier creating] at found
      exact finished.recorded path file found
  have next : ∀ mirrorRun tier, points.phase = .creating mirrorRun tier → mirrorRun.current = run.state :=
    MirrorPoints.current_of_step (fun mirrorRun same => absurd same (other mirrorRun)) current stepped
  have kept : ({ s.store with points := points } : MirrorStore Content).ObjectsSound hashing := sound.objects
  have manifest : ∀ state, s.store.manifest = some state → ∀ path file, state.files.find? path = some file →
      ({ s.store with points := points } : MirrorStore Content).Restorable hashing path file.sha256 :=
    sound.manifest
  unfold MirrorUpdate.pointed
  dsimp only
  split
  · split
    · exact ⟨kept, restorable, manifest, ⟨finished.recorded, finished.mirrored, finished.manifest⟩, complete⟩
    · exact ⟨kept, restorable, manifest, trivial⟩
  · refine ⟨kept, restorable, manifest, ?_⟩
    dsimp only
    rw [pointing]
    exact ⟨⟨finished.recorded, finished.mirrored, finished.manifest⟩, complete, next⟩

/-- Every action keeps the state sound. -/
theorem step {action : UpdateAction Content} (sound : s.Sound hashing) (faithful : s.Faithful hashing action)
    (stepped : MirrorUpdate.step hashing s action = some next) : next.Sound hashing := by
  have phase := sound.phase
  cases action with
  | begin time timestamp entries =>
      simp only [MirrorUpdate.step] at stepped
      split at stepped
      · obtain rfl := Option.some.inj stepped
        exact sound.withPhase (phaseSound_afterVisit (.start sound.manifest time timestamp) entries) _
      · cases stepped
  | visitDirectory error =>
      simp only [MirrorUpdate.step] at stepped
      split at stepped
      · next run relative rest visiting =>
          rw [visiting] at phase
          obtain rfl := Option.some.inj stepped
          apply sound.withPhase
          apply phaseSound_afterVisit
          have listed : ({ run with sourceDirectories := run.sourceDirectories ++ [relative] } :
              UpdateRun).Progress hashing s.store none := ⟨phase.recorded, phase.visited, phase.unwritten⟩
          cases error with
          | none => exact listed
          | some message => exact listed.fail _
      · cases stepped
  | visitFile answers =>
      simp only [MirrorUpdate.step] at stepped
      split at stepped
      · next run relative rest visiting =>
          simp only [MirrorUpdate.Faithful, visiting] at faithful
          rw [visiting] at phase
          obtain rfl := Option.some.inj stepped
          apply sound.withPhase
          exact phaseSound_decided (UpdateRun.Progress.listed phase relative)
            (visitFile_legal s.store _ relative answers) faithful rest
      · cases stepped
  | archive parentError answers =>
      simp only [MirrorUpdate.step] at stepped
      split at stepped
      · next run relative staged file rest archiving =>
          rw [archiving] at phase
          obtain ⟨progress, hashed⟩ := phase
          split at stepped
          · obtain rfl := Option.some.inj stepped
            exact sound.withPhase (phaseSound_afterVisit (progress.fail _) rest) _
          · split at stepped
            · obtain rfl := Option.some.inj stepped
              exact sound.withPhase (phaseSound_afterVisit (progress.fail _) rest) _
            · next store archived done =>
                obtain rfl := Option.some.inj stepped
                have kept := MirrorStore.archived_of_ok faithful done
                have keeps := kept.keeps sound.objects
                apply sound.keeps keeps
                refine ⟨progress.keeps keeps, hashed, ?_⟩
                rw [kept.data, Function.update_self]
      · cases stepped
  | replace replacement =>
      simp only [MirrorUpdate.step] at stepped
      split at stepped
      · next run relative staged file archived rest replacing =>
          rw [replacing] at phase
          obtain ⟨progress, hashed, absent⟩ := phase
          split at stepped
          · obtain rfl := Option.some.inj stepped
            exact sound.keeps (MirrorStore.keeps_setData absent sound.objects)
              (phaseSound_afterVisit (progress.publish hashed absent sound.objects) rest) _
          · obtain rfl := Option.some.inj stepped
            apply sound.keeps (MirrorStore.keeps_setData absent sound.objects)
            apply phaseSound_afterVisit
            exact (progress.keeps (MirrorStore.keeps_setData absent sound.objects)).fail _
      · cases stepped
  | sweep answers =>
      simp only [MirrorUpdate.step] at stepped
      split at stepped
      · next run relative rest sweeping =>
          rw [sweeping] at phase
          obtain ⟨progress, covered⟩ := phase
          split at stepped
          · next listed =>
              obtain rfl := Option.some.inj stepped
              apply sound.withPhase
              refine ⟨progress, fun clean path recorded => ?_⟩
              rcases covered clean path recorded with source | later
              · exact .inl source
              · rcases List.mem_cons.mp later with rfl | later
                · exact .inl (List.contains_iff_mem.mp listed)
                · exact .inr later
          · next gone =>
              have absent : relative ∉ run.sourceFiles := fun member => gone (List.contains_iff_mem.mpr member)
              split at stepped
              · obtain rfl := Option.some.inj stepped
                apply sound.withPhase
                refine ⟨(progress.weaken relative).fail _, fun clean => ?_⟩
                simp [UpdateRun.fail] at clean
              · next store archived done =>
                  obtain rfl := Option.some.inj stepped
                  have keeps := (MirrorStore.archived_of_ok faithful done).keeps sound.objects
                  apply sound.keeps keeps
                  refine ⟨((progress.weaken relative).keeps keeps).erase absent, fun clean path recorded => ?_⟩
                  obtain ⟨file, found⟩ := SortedMap.mem_keys_iff.mp recorded
                  dsimp only at found
                  rw [SortedMap.find?_erase] at found
                  split at found
                  · cases found
                  · next other =>
                      rcases covered clean path (SortedMap.mem_keys_iff.mpr ⟨file, found⟩) with source | later
                      · exact .inl source
                      · rcases List.mem_cons.mp later with same | later
                        · exact absurd same.symm other
                        · exact .inr later
      · cases stepped
  | verify sameEntries =>
      simp only [MirrorUpdate.step] at stepped
      split at stepped
      · next run sweeping =>
          rw [sweeping] at phase
          obtain rfl := Option.some.inj stepped
          apply sound.withPhase
          exact phase.1.finish phase.2 sameEntries
      · cases stepped
  | write error =>
      simp only [MirrorUpdate.step] at stepped
      split at stepped
      · next run writing =>
          rw [writing] at phase
          split at stepped
          · split at stepped
            · obtain rfl := Option.some.inj stepped
              apply sound.withPhase
              trivial
            · exact published sound phase ⟨_, rfl, rfl⟩ stepped
          · next unneeded =>
              have unchanged : run.metadataChanged = false := by
                simp only [Bool.or_eq_true, not_or, Bool.not_eq_true] at unneeded
                exact unneeded.1.1
              exact published sound phase (phase.manifest (.inr unchanged)) stepped
      · cases stepped
  | create answers =>
      simp only [MirrorUpdate.step] at stepped
      split at stepped
      · next run pointing =>
          obtain ⟨points, taken, rfl⟩ := Option.map_eq_some_iff.mp stepped
          exact pointed sound pointing (fun _ same => by cases same) taken
      · cases stepped
  | rotate answers =>
      simp only [MirrorUpdate.step] at stepped
      split at stepped
      · next run pointing =>
          obtain ⟨points, taken, rfl⟩ := Option.map_eq_some_iff.mp stepped
          exact pointed sound pointing (fun _ same => by cases same) taken
      · cases stepped
  | collect answers =>
      simp only [MirrorUpdate.step] at stepped
      split at stepped
      · next run collecting =>
          rw [collecting] at phase
          obtain ⟨finished, complete⟩ := phase
          obtain rfl := Option.some.inj stepped
          have mirrored := finished.mirrored complete
          have objects : (s.store.collectGarbageObjects run.state answers).ObjectsSound hashing :=
            MirrorStore.objectsSound_collect sound.objects
          exact
            { objects := objects
              points := fun path digest references =>
                MirrorStore.restorable_collect sound.objects faithful mirrored references
                  (sound.points path digest references)
              manifest := by
                intro state written path file found
                obtain ⟨other, there, same⟩ := finished.manifest (.inl rfl)
                obtain rfl := Option.some.inj (there.symm.trans written)
                rw [same] at found
                exact (MirrorStore.restorable_iff objects).mpr (.inr (mirrored path file found))
              phase := trivial }
      · cases stepped
  | stop =>
      obtain rfl := Option.some.inj stepped
      exact ⟨sound.objects, sound.points, sound.manifest, trivial⟩

end MirrorUpdate.Sound

theorem MirrorUpdate.no_manifests_start (tiers : List HistoryTier) {manifest : PointManifest HistoryState} :
    manifest ∉ (MirrorUpdate.start tiers : MirrorUpdate Content).store.points.manifests := by
  intro member
  obtain ⟨h, there, recorded⟩ := MirrorPoints.mem_manifests.mp member
  obtain ⟨tier, -, rfl⟩ := List.mem_map.mp there
  cases recorded

theorem MirrorUpdate.sound_start (tiers : List HistoryTier) :
    (MirrorUpdate.start tiers : MirrorUpdate Content).Sound hashing where
  objects := nofun
  points := by
    rintro path digest ⟨manifest, member, -⟩
    exact absurd member (no_manifests_start tiers)
  manifest := nofun
  phase := trivial

/-- After any number of runs, each of which may fail or stop anywhere, every content
that a readable restore point or the current manifest names can be restored. -/
theorem MirrorUpdate.points_restorable (tiers : List HistoryTier) (actions : List (UpdateAction Content))
    {s : MirrorUpdate Content}
    (faithful : (mirrorUpdates hashing).Conforms (MirrorUpdate.Faithful hashing) (.start tiers) actions)
    (done : (mirrorUpdates hashing).run (.start tiers) actions = some s) :
    (∀ manifest ∈ s.store.points.manifests, ∀ path file, manifest.current.files.find? path = some file →
      s.store.Restorable hashing path file.sha256) ∧
    ∀ state, s.store.manifest = some state → ∀ path file, state.files.find? path = some file →
      s.store.Restorable hashing path file.sha256 := by
  have sound : s.Sound hashing :=
    Machine.invariant_run (fun state action next sound faithful stepped => sound.step faithful stepped)
      (MirrorUpdate.sound_start tiers) faithful done
  exact ⟨fun manifest member path file found => sound.points path _ ⟨manifest, member, file, found, rfl⟩,
    sound.manifest⟩

end Runs

/-- A run over one file that captures the given content and finishes. -/
def plainRun (time : Name) (timestamp : Int) (content : Nat) : List (UpdateAction Nat) :=
  let fingerprint := Nat.toDigits 10 content
  [ .begin time timestamp [(['a'], .file)],
    .visitFile ⟨.ok ⟨true, fingerprint⟩, none, none, false, .ok ⟨content, [], fingerprint, true⟩, none, false⟩,
    .archive none .quiet, .replace .replaced, .sweep .quiet, .verify (.ok true), .write none,
    .create ⟨fun _ => true, true, .written⟩, .create ⟨fun _ => true, true, .written⟩,
    .rotate ⟨fun _ => true, fun _ => .removed⟩, .rotate ⟨fun _ => true, fun _ => .removed⟩,
    .collect ⟨fun _ _ => true, fun _ _ => true⟩ ]

/-- Two runs with a stopped one between them: both points stay restorable, the first
one from an object and the second one from the current copy. -/
theorem MirrorUpdate.points_restorable_changed :
    let hashing : Hashing Nat := ⟨fun content => Nat.toDigits 10 content, id⟩
    let actions := plainRun ['1'] 10 7 ++ (plainRun ['2'] 20 8).take 3 ++ [.stop] ++ plainRun ['3'] 30 9
    ∃ s, (mirrorUpdates hashing).run (.start [⟨['d'], 1, 5⟩]) actions = some s ∧
      s.store.points.manifests.length = 2 ∧
      ∀ manifest ∈ s.store.points.manifests, ∀ path file, manifest.current.files.find? path = some file →
        s.store.Restorable hashing path file.sha256 := by
  intro hashing actions
  have ends : ((mirrorUpdates hashing).run (.start [⟨['d'], 1, 5⟩]) actions).map
      (fun s => s.store.points.manifests.length) = some 2 := by decide +kernel
  have faithful : (mirrorUpdates hashing).Conforms (MirrorUpdate.Faithful hashing)
      (.start [⟨['d'], 1, 5⟩]) actions := by decide +kernel
  obtain ⟨s, done, count⟩ := Option.map_eq_some_iff.mp ends
  exact ⟨s, done, count, (MirrorUpdate.points_restorable _ actions faithful done).1⟩

end SearchEngine.Backup
