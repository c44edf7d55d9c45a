import SearchEngine.Backup.MirrorRestorable

/-!
# Calm runs mirror exactly

As long as no run is cut off between a published file and the next manifest, every
current copy is recorded with its digest. A run then never keeps a wrong copy, and
one that completes leaves exactly the files of its manifest in the mirror.
-/

namespace SearchEngine.Backup

open SearchEngine.Lib

variable {Content : Type} {hashing : Hashing Content}

/-! ## Calm actions -/

namespace UpdatePhase

/-- The run of a phase in which the manifest does not yet tell what the run did. -/
def unwritten? : UpdatePhase Content → Option UpdateRun
  | .visiting run _ | .archiving run .. | .replacing run .. | .sweeping run _ | .writing run => some run
  | .idle | .pointing _ | .collecting _ => none

end UpdatePhase

/-- A run stops and its manifest fails only while it has changed no file; an archived
copy comes back whole or not at all; files only stand where objects belong; and the
cleanup reads every point. -/
def MirrorUpdate.Calm (hashing : Hashing Content) (s : MirrorUpdate Content) : UpdateAction Content → Prop
  | .stop => ∀ run ∈ s.phase.unwritten?, run.dataChanged = false
  | .write error => error.isSome = true → ∀ run ∈ s.phase.unwritten?, run.dataChanged = false
  | .replace (.refused _ copied) =>
      match s.phase with
      | .replacing _ _ _ _ archived _ => ∀ content ∈ copied, ∀ digest ∈ archived, hashing.sha256 content = digest
      | _ => True
  | .archive _ answers => answers.blocked = false
  | .sweep answers => answers.blocked = false
  | .collect answers => s.store.ReadsAll answers
  | _ => True

instance (s : MirrorUpdate Content) (action : UpdateAction Content) : Decidable (s.Calm hashing action) :=
  match action with
  | .stop => inferInstanceAs (Decidable (∀ _ ∈ _, _))
  | .write error => inferInstanceAs (Decidable (error.isSome = true → ∀ _ ∈ _, _))
  | .replace (.refused _ copied) =>
      match replacing : s.phase with
      | .replacing _ _ _ _ archived _ =>
          decidable_of_iff (∀ content ∈ copied, ∀ digest ∈ archived, hashing.sha256 content = digest)
            (by simp only [MirrorUpdate.Calm, replacing])
      | .idle | .visiting .. | .archiving .. | .sweeping .. | .writing _ | .pointing _ | .collecting _ =>
          isTrue (by simp only [MirrorUpdate.Calm, replacing])
  | .archive _ answers => inferInstanceAs (Decidable (answers.blocked = false))
  | .sweep answers => inferInstanceAs (Decidable (answers.blocked = false))
  | .collect answers => inferInstanceAs (Decidable (s.store.ReadsAll answers))
  | .begin .. | .visitDirectory _ | .visitFile _ | .replace .replaced | .verify _ | .create _ | .rotate _ =>
      isTrue trivial

/-! ## The records and the copies -/

/-- The records of a manifest, if there is one. -/
def MirrorStore.recorded (store : MirrorStore Content) : SortedMap Name HistoryFile :=
  (store.manifest.map HistoryState.files).getD ∅

/-- A record of the path has the digest. -/
def Records (files : SortedMap Name HistoryFile) (path digest : Name) : Prop :=
  ∃ file, files.find? path = some file ∧ file.sha256 = digest

/-- Every current copy is recorded with its digest. -/
def MirrorStore.Covered (hashing : Hashing Content) (store : MirrorStore Content)
    (files : SortedMap Name HistoryFile) : Prop :=
  ∀ path content, store.data path = some content → Records files path (hashing.sha256 content)

namespace MirrorStore.Covered

variable {store : MirrorStore Content} {files : SortedMap Name HistoryFile} {relative : Name}

theorem archive (covered : store.Covered hashing files) {answers : ArchiveAnswers}
    {after : MirrorStore Content} {object : Option Name} (free : answers.blocked = false)
    (done : store.archiveCurrentFile hashing relative answers = .ok (after, object)) :
    after.Covered hashing files := by
  intro path content copy
  rw [(archived_of_ok free done).data] at copy
  by_cases same : path = relative
  · rw [same, Function.update_self] at copy
    cases copy
  · rw [Function.update_of_ne same] at copy
    exact covered path content copy

/-- The archived object was recorded. -/
theorem object (covered : store.Covered hashing files) {answers : ArchiveAnswers}
    {after : MirrorStore Content} {object : Option Name}
    (done : store.archiveCurrentFile hashing relative answers = .ok (after, object)) :
    ∀ digest ∈ object, Records files relative digest := by
  intro digest member
  unfold archiveCurrentFile at done
  split at done
  · cases done
  split at done
  · obtain ⟨-, rfl⟩ := Prod.mk.inj (Except.ok.inj done)
    cases member
  next content copy =>
  have recorded := covered relative content copy
  split at done
  · cases done
  dsimp only at done
  split at done
  · cases done
  split at done
  · split at done
    · cases done
    split at done
    · cases done
    obtain ⟨-, rfl⟩ := Prod.mk.inj (Except.ok.inj done)
    obtain rfl := Option.some.inj member
    exact recorded
  · split at done
    · cases done
    obtain ⟨-, rfl⟩ := Prod.mk.inj (Except.ok.inj done)
    obtain rfl := Option.some.inj member
    exact recorded

theorem setData (covered : store.Covered hashing files) {copy : Option Content}
    (recorded : ∀ content ∈ copy, Records files relative (hashing.sha256 content)) :
    (store.setData relative copy).Covered hashing files := by
  intro path content there
  dsimp only [MirrorStore.setData] at there
  by_cases same : path = relative
  · rw [same, Function.update_self] at there
    rw [same]
    exact recorded content there
  · rw [Function.update_of_ne same] at there
    exact covered path content there

/-- A record replaces another one beside its copy. -/
theorem insert (covered : store.Covered hashing files) {file : HistoryFile}
    (here : ∀ content, store.data relative = some content → hashing.sha256 content = file.sha256) :
    store.Covered hashing (files.insert relative file) := by
  intro path content copy
  by_cases same : relative = path
  · subst same
    exact ⟨file, by rw [SortedMap.find?_insert, if_pos rfl], (here content copy).symm⟩
  · obtain ⟨other, found, digest⟩ := covered path content copy
    exact ⟨other, by rw [SortedMap.find?_insert, if_neg same, found], digest⟩

theorem erase (covered : store.Covered hashing files) (absent : store.data relative = none) :
    store.Covered hashing (files.erase relative) := by
  intro path content copy
  have other : relative ≠ path := by
    intro same
    rw [← same, absent] at copy
    cases copy
  obtain ⟨file, found, digest⟩ := covered path content copy
  exact ⟨file, by rw [SortedMap.find?_erase, if_neg other, found], digest⟩

end MirrorStore.Covered

/-! ## The invariant -/

/-- The copies are recorded by the run, and by the manifest until a file changes. -/
structure UpdateRun.Tidy (hashing : Hashing Content) (store : MirrorStore Content) (run : UpdateRun) :
    Prop where
  current : store.Covered hashing run.state.files
  manifest : run.dataChanged = false → store.Covered hashing store.recorded

/-- What the manifest and the run record of the copies in each phase. -/
def PhaseTidy (hashing : Hashing Content) (store : MirrorStore Content) : UpdatePhase Content → Prop
  | .idle => store.Covered hashing store.recorded
  | .visiting run _ | .sweeping run _ | .writing run => run.Tidy hashing store
  | .archiving run _ staged file _ => run.Tidy hashing store ∧ hashing.sha256 staged = file.sha256
  | .replacing run relative staged file archived _ =>
      run.Tidy hashing store ∧ hashing.sha256 staged = file.sha256 ∧
        ∀ digest ∈ archived, Records run.state.files relative digest ∧
          (run.dataChanged = false → Records store.recorded relative digest)
  | .pointing _ | .collecting _ => store.Covered hashing store.recorded

theorem UpdateRun.Tidy.mono {store : MirrorStore Content} {run next : UpdateRun}
    (tidy : run.Tidy hashing store) (files : next.state.files = run.state.files)
    (changed : next.dataChanged = false → run.dataChanged = false) : next.Tidy hashing store where
  current := by rw [files]; exact tidy.current
  manifest := fun calm => tidy.manifest (changed calm)

theorem UpdateRun.Tidy.fail {store : MirrorStore Content} {run : UpdateRun} (tidy : run.Tidy hashing store)
    (text : Name) : (run.fail text).Tidy hashing store := ⟨tidy.current, tidy.manifest⟩

theorem phaseTidy_afterVisit {store : MirrorStore Content} {run : UpdateRun}
    (tidy : run.Tidy hashing store) (rest : List (Name × EntryKind)) :
    PhaseTidy hashing store (MirrorUpdate.afterVisit run rest) := by
  cases rest with
  | nil => exact tidy
  | cons entry rest => exact tidy

/-- A decision that leaves the copy as it is has found one. -/
theorem isSome_of_isKept {store : MirrorStore Content} {run : UpdateRun} {relative : Name}
    {answers : FileAnswers Content}
    (kept : (visitFile hashing store run relative answers).isKept = true) :
    (store.data relative).isSome = true := by
  unfold visitFile at kept
  split at kept
  · cases kept
  split at kept
  · cases kept
  dsimp only at kept
  split at kept
  · cases kept
  split at kept
  · cases kept
  next regular =>
  split at kept
  · next same =>
      obtain ⟨file, -, agrees⟩ := (Option.any_eq_true _ _).mp same
      simp only [Bool.and_eq_true] at agrees
      have present := agrees.1.1.1
      rw [present, Bool.true_and] at regular
      simpa [Option.isNone_iff_eq_none, Option.isSome_iff_ne_none] using regular
  split at kept
  · cases kept
  split at kept
  · cases kept
  split at kept
  · next existing found =>
      obtain ⟨-, agrees⟩ := Option.filter_eq_some_iff.mp found
      simp only [Bool.and_eq_true] at agrees
      obtain ⟨content, copy, -⟩ := (Option.any_eq_true _ _).mp agrees.2
      rw [copy]
      rfl
  · cases kept

/-- Every decision leaves the copies recorded. -/
theorem phaseTidy_decided {store : MirrorStore Content} {run : UpdateRun} {relative : Name}
    (tidy : run.Tidy hashing store) {visit : Visit Content}
    (legal : visit.Legal hashing (run.state.files.find? relative)) (rest : List (Name × EntryKind)) :
    PhaseTidy hashing store (MirrorUpdate.decided run relative rest visit) := by
  cases visit with
  | failed message =>
      exact phaseTidy_afterVisit (tidy.fail _) rest
  | unchanged => exact phaseTidy_afterVisit tidy rest
  | sameContent file changed =>
      cases changed with
      | false => exact phaseTidy_afterVisit tidy rest
      | true =>
          obtain ⟨existing, found, same⟩ := legal
          apply phaseTidy_afterVisit
          refine ⟨tidy.current.insert fun content copy => ?_, tidy.manifest⟩
          obtain ⟨other, there, digest⟩ := tidy.current relative content copy
          obtain rfl := Option.some.inj (found.symm.trans there)
          rw [same, digest]
  | publish staged file => exact ⟨tidy, legal⟩

namespace MirrorUpdate

/-- The copies of the mirror are recorded with their digests. -/
def Tidy (hashing : Hashing Content) (s : MirrorUpdate Content) : Prop := PhaseTidy hashing s.store s.phase

/-- In a tidy state a calm action is faithful. -/
theorem Tidy.faithful {s : MirrorUpdate Content} {action : UpdateAction Content} (tidy : s.Tidy hashing)
    (calm : s.Calm hashing action) : s.Faithful hashing action := by
  cases action with
  | visitFile answers =>
      simp only [MirrorUpdate.Faithful]
      split
      · next run relative rest visiting =>
          intro kept file found
          have phase : PhaseTidy hashing s.store s.phase := tidy
          rw [visiting] at phase
          obtain ⟨content, copy⟩ := Option.isSome_iff_exists.mp (isSome_of_isKept kept)
          obtain ⟨other, there, digest⟩ := phase.current relative content copy
          obtain rfl := Option.some.inj (found.symm.trans there)
          exact ⟨content, copy, digest.symm⟩
      · trivial
  | archive parentError answers => exact calm
  | sweep answers => exact calm
  | collect answers => exact calm
  | begin time timestamp entries => trivial
  | visitDirectory error => trivial
  | replace replacement => trivial
  | verify sameEntries => trivial
  | write error => trivial
  | create answers => trivial
  | rotate answers => trivial
  | stop => trivial

theorem files_verified (run : UpdateRun) (sameEntries : Except Name Bool) :
    (verified run sameEntries).state.files = run.state.files := by
  simp only [verified]
  split <;> rfl

theorem dataChanged_verified (run : UpdateRun) (sameEntries : Except Name Bool) :
    (verified run sameEntries).dataChanged = run.dataChanged := by
  simp only [verified]
  split <;> rfl

/-- A manifest that names the copies leads to a tidy end or to the restore points. -/
theorem tidy_published {s next : MirrorUpdate Content} {run : UpdateRun}
    (covered : s.store.Covered hashing s.store.recorded) (done : s.published run = some next) :
    next.Tidy hashing := by
  unfold published at done
  split at done
  · obtain ⟨points, -, rfl⟩ := Option.map_eq_some_iff.mp done
    exact covered
  · obtain rfl := Option.some.inj done
    exact covered

theorem tidy_pointed {s : MirrorUpdate Content} {run : UpdateRun} {points : MirrorPoints HistoryState}
    (pointing : s.phase = .pointing run) (covered : s.store.Covered hashing s.store.recorded) :
    (s.pointed run points).Tidy hashing := by
  unfold pointed
  dsimp only
  split
  · split
    · exact covered
    · exact covered
  · rw [Tidy]
    dsimp only
    rw [pointing]
    exact covered

/-- Every calm action of a sound state keeps the copies recorded. -/
theorem Tidy.step {s next : MirrorUpdate Content} {action : UpdateAction Content} (tidy : s.Tidy hashing)
    (sound : s.Sound hashing) (calm : s.Calm hashing action)
    (stepped : MirrorUpdate.step hashing s action = some next) : next.Tidy hashing := by
  have phase : PhaseTidy hashing s.store s.phase := tidy
  cases action with
  | begin time timestamp entries =>
      simp only [MirrorUpdate.step] at stepped
      split at stepped
      · next idle =>
          rw [idle] at phase
          obtain rfl := Option.some.inj stepped
          apply phaseTidy_afterVisit
          have same : (UpdateRun.start time timestamp s.store.manifest).state.files = s.store.recorded := by
            rw [MirrorStore.recorded]
            cases s.store.manifest <;> rfl
          exact ⟨by rw [same]; exact phase, fun _ => phase⟩
      · cases stepped
  | visitDirectory error =>
      simp only [MirrorUpdate.step] at stepped
      split at stepped
      · next run relative rest visiting =>
          rw [visiting] at phase
          obtain rfl := Option.some.inj stepped
          apply phaseTidy_afterVisit
          cases error with
          | none => exact UpdateRun.Tidy.mono phase rfl id
          | some message => exact UpdateRun.Tidy.mono phase rfl id
      · cases stepped
  | visitFile answers =>
      simp only [MirrorUpdate.step] at stepped
      split at stepped
      · next run relative rest visiting =>
          rw [visiting] at phase
          obtain rfl := Option.some.inj stepped
          have listed : ({ run with sourceFiles := run.sourceFiles ++ [relative] } : UpdateRun).Tidy hashing
              s.store := ⟨phase.current, phase.manifest⟩
          exact phaseTidy_decided listed (visitFile_legal s.store _ relative answers) rest
      · cases stepped
  | archive parentError answers =>
      simp only [MirrorUpdate.step] at stepped
      split at stepped
      · next run relative staged file rest archiving =>
          rw [archiving] at phase
          obtain ⟨run_tidy, hashed⟩ := phase
          split at stepped
          · obtain rfl := Option.some.inj stepped
            exact phaseTidy_afterVisit (run_tidy.fail _) rest
          · split at stepped
            · obtain rfl := Option.some.inj stepped
              exact phaseTidy_afterVisit (run_tidy.fail _) rest
            · next store archived done =>
                obtain rfl := Option.some.inj stepped
                have same : store.recorded = s.store.recorded := by
                  rw [MirrorStore.recorded, (MirrorStore.archived_of_ok calm done).manifest]
                  rfl
                refine ⟨⟨run_tidy.current.archive calm done, fun unchanged => ?_⟩, hashed, fun digest member =>
                  ⟨run_tidy.current.object done digest member, fun unchanged => ?_⟩⟩
                · rw [same]
                  exact (run_tidy.manifest unchanged).archive calm done
                · rw [same]
                  exact (run_tidy.manifest unchanged).object done digest member
      · cases stepped
  | replace replacement =>
      simp only [MirrorUpdate.step] at stepped
      split at stepped
      · next run relative staged file archived rest replacing =>
          rw [replacing] at phase
          obtain ⟨run_tidy, hashed, object⟩ := phase
          split at stepped
          · obtain rfl := Option.some.inj stepped
            apply phaseTidy_afterVisit
            refine ⟨fun path content copy => ?_, fun unchanged => absurd unchanged.symm Bool.false_ne_true⟩
            dsimp only [MirrorStore.setData] at copy
            by_cases same : relative = path
            · subst same
              rw [Function.update_self] at copy
              obtain rfl := Option.some.inj copy
              exact ⟨file, by simp [UpdateRun.record], hashed.symm⟩
            · rw [Function.update_of_ne (Ne.symm same)] at copy
              obtain ⟨other, found, digest⟩ := run_tidy.current path content copy
              exact ⟨other, by simp [UpdateRun.record, same, found], digest⟩
          · next message copied =>
              obtain rfl := Option.some.inj stepped
              simp only [MirrorUpdate.Calm, replacing] at calm
              have whole : ∀ content ∈ copied.filter fun _ => archived.isSome, ∃ digest ∈ archived,
                  hashing.sha256 content = digest := by
                intro content member
                obtain ⟨there, filled⟩ := Option.filter_eq_some_iff.mp member
                obtain ⟨digest, eq⟩ := Option.isSome_iff_exists.mp filled
                exact ⟨digest, eq, calm content there digest eq⟩
              apply phaseTidy_afterVisit
              refine ⟨run_tidy.current.setData fun content member => ?_, fun unchanged =>
                (run_tidy.manifest unchanged).setData fun content member => ?_⟩
              · obtain ⟨digest, there, same⟩ := whole content member
                rw [same]
                exact (object digest there).1
              · obtain ⟨digest, there, same⟩ := whole content member
                rw [same]
                exact (object digest there).2 unchanged
      · cases stepped
  | sweep answers =>
      simp only [MirrorUpdate.step] at stepped
      split at stepped
      · next run relative rest sweeping =>
          rw [sweeping] at phase
          split at stepped
          · obtain rfl := Option.some.inj stepped
            exact phase
          · split at stepped
            · obtain rfl := Option.some.inj stepped
              exact UpdateRun.Tidy.mono phase rfl id
            · next store archived done =>
                obtain rfl := Option.some.inj stepped
                refine ⟨(phase.current.archive calm done).erase ?_, fun unchanged => absurd unchanged.symm Bool.false_ne_true⟩
                rw [(MirrorStore.archived_of_ok calm done).data, Function.update_self]
      · cases stepped
  | verify sameEntries =>
      simp only [MirrorUpdate.step] at stepped
      split at stepped
      · next run sweeping =>
          rw [sweeping] at phase
          obtain rfl := Option.some.inj stepped
          apply UpdateRun.Tidy.mono phase (files_verified run sameEntries)
          rw [dataChanged_verified]
          exact id
      · cases stepped
  | write error =>
      simp only [MirrorUpdate.step] at stepped
      split at stepped
      · next run writing =>
          rw [writing] at phase
          split at stepped
          · split at stepped
            · next message =>
                obtain rfl := Option.some.inj stepped
                exact phase.manifest (calm rfl run (by rw [writing]; rfl))
            · exact tidy_published phase.current stepped
          · next unneeded =>
              have unchanged : run.metadataChanged = false := by
                simp only [Bool.or_eq_true, not_or, Bool.not_eq_true] at unneeded
                exact unneeded.1.1
              have finished := sound.phase
              rw [writing] at finished
              obtain ⟨state, there, same⟩ := finished.manifest (.inr unchanged)
              have covered : s.store.Covered hashing s.store.recorded := by
                rw [MirrorStore.recorded, there, Option.map_some, Option.getD_some, same]
                exact phase.current
              exact tidy_published covered stepped
      · cases stepped
  | create answers =>
      simp only [MirrorUpdate.step] at stepped
      split at stepped
      · next run pointing =>
          rw [pointing] at phase
          obtain ⟨points, taken, rfl⟩ := Option.map_eq_some_iff.mp stepped
          exact tidy_pointed pointing phase
      · cases stepped
  | rotate answers =>
      simp only [MirrorUpdate.step] at stepped
      split at stepped
      · next run pointing =>
          rw [pointing] at phase
          obtain ⟨points, taken, rfl⟩ := Option.map_eq_some_iff.mp stepped
          exact tidy_pointed pointing phase
      · cases stepped
  | collect answers =>
      simp only [MirrorUpdate.step] at stepped
      split at stepped
      · next run collecting =>
          rw [collecting] at phase
          obtain rfl := Option.some.inj stepped
          exact phase
      · cases stepped
  | stop =>
      obtain rfl := Option.some.inj stepped
      cases at_ : s.phase with
      | idle => rw [at_] at phase; exact phase
      | pointing run => rw [at_] at phase; exact phase
      | collecting run => rw [at_] at phase; exact phase
      | visiting run rest =>
          rw [at_] at phase
          exact phase.manifest (calm run (by rw [at_]; rfl))
      | archiving run relative staged file rest =>
          rw [at_] at phase
          exact phase.1.manifest (calm run (by rw [at_]; rfl))
      | replacing run relative staged file archived rest =>
          rw [at_] at phase
          exact phase.1.manifest (calm run (by rw [at_]; rfl))
      | sweeping run rest =>
          rw [at_] at phase
          exact phase.manifest (calm run (by rw [at_]; rfl))
      | writing run =>
          rw [at_] at phase
          exact phase.manifest (calm run (by rw [at_]; rfl))

end MirrorUpdate

end SearchEngine.Backup
