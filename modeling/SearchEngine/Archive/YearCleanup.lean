import SearchEngine.Archive.YearPublication

/-!
# Deleting the sources of a published year

`cleanupYearMoveFiles` checks every file of the manifest before it deletes the first one. The
monthly databases follow, each checked before its own deletion: a rewritten copy is not the
content of its source, so they are held against the manifest.
-/

namespace SearchEngine.Archive

open SearchEngine.Lib

universe u

variable {Content : Type u}

/-- A deletion, with the tree it meets. -/
structure Removal (Content : Type u) where
  place : Place
  tree : FileTree Name Content

/-- What a part of the cleanup leaves: the tree, the deletions so far, and the error. -/
abbrev CleanupOutcome (Content : Type u) := FileTree Name Content × List (Removal Content) × Option String

/-- A source file and its copy are what the manifest says. -/
def CopiedFile.verified [DecidableEq Content] (sys : YearSystem Content) (tree : FileTree Name Content)
    (file : CopiedFile Content) : Bool :=
  sys.contentAt tree file.source = some file.content && sys.contentAt tree file.target = some file.content

/-- The loop that collects `removableFiles`. -/
def verifyFiles [DecidableEq Content] (sys : YearSystem Content) (fails : YearStep → Bool) (tree : FileTree Name Content) :
    List (CopiedFile Content) → Except String (List Place)
  | [] => .ok []
  | file :: rest =>
      if fails (.inspectFile file.source) then .error "filesystem_error"
      else if !(sys.status tree file.source).isSome then verifyFiles sys fails tree rest
      else if fails (.hashFile file.source) || fails (.hashFile file.target) || !file.verified sys tree then
        .error "source changed after copy; cleanup stopped before deletion: "
      else
        match verifyFiles sys fails tree rest with
        | .error message => .error message
        | .ok removable => .ok (file.source :: removable)

/-- The loop that deletes them. -/
def deleteFiles (fails : YearStep → Bool) :
    List Place → FileTree Name Content → List (Removal Content) → CleanupOutcome Content
  | [], tree, log => (tree, log, none)
  | source :: rest, tree, log =>
      if fails (.removeFile source) then (tree, log, some "cannot delete source file: ")
      else
        match tree.remove source with
        | none => (tree, log, some "cannot delete source file: ")
        | some next => deleteFiles fails rest next (log ++ [⟨source, tree⟩])

/-- The roots of the mappings, if they are empty by now. -/
def removeMappingRoots (sys : YearSystem Content) (fails : YearStep → Bool) :
    List Place → FileTree Name Content → List (Removal Content) → FileTree Name Content × List (Removal Content)
  | [], tree, log => (tree, log)
  | source :: rest, tree, log =>
      if sys.isTlgRoot source || fails (.removeRoot source) then removeMappingRoots sys fails rest tree log
      else
        match tree.remove source with
        | none => removeMappingRoots sys fails rest tree log
        | some next => removeMappingRoots sys fails rest next (log ++ [⟨source, tree⟩])

/-- The source has the fingerprint that it had when it was copied. -/
def ArchivedDatabase.unchanged (sys : YearSystem Content) (tree : FileTree Name Content)
    (database : ArchivedDatabase Content) : Bool :=
  (sys.inspect tree database.source).any fun current =>
    current.cacheable && current.value = database.fingerprint.value

/-- The loop over the monthly databases. -/
def deleteDatabases [DecidableEq Content] (sys : YearSystem Content) (fails : YearStep → Bool) :
    List (ArchivedDatabase Content) → FileTree Name Content → List (Removal Content) → CleanupOutcome Content
  | [], tree, log => (tree, log, none)
  | database :: rest, tree, log =>
      if database.kind = .prd && database.month = 12 then deleteDatabases sys fails rest tree log
      else if fails (.inspectFile database.source) then (tree, log, some "filesystem_error")
      else if !(sys.status tree database.source).isSome then deleteDatabases sys fails rest tree log
      else if fails (.hashFile database.target) ||
          sys.contentAt tree database.target ≠ some database.targetContent then
        (tree, log, some "archived monthly database is unavailable: ")
      else if !database.fingerprint.cacheable then
        (tree, log, some "monthly database uses a non-cacheable SQLite journal mode; automatic source deletion is forbidden: ")
      else if fails (.inspect database.source) || !database.unchanged sys tree then
        (tree, log, some "source monthly database changed after backup; deletion refused: ")
      else if fails (.removeDatabase database.source) then (tree, log, some "cannot delete monthly database: ")
      else
        match tree.remove database.source with
        | none => (tree, log, some "cannot delete monthly database: ")
        | some next => deleteDatabases sys fails rest next (log ++ [⟨database.source, tree⟩])

/-- The phase that a cleanup leaves in the manifest. -/
def cleanedPhase (deleteMonthlyDatabases : Bool) : ManifestPhase :=
  if deleteMonthlyDatabases then .sourceFilesAndMonthlyDatabasesCleaned else .sourceFilesCleaned

/-- `saveJsonAtomically` at the end. -/
def saveCleanedManifest (sys : YearSystem Content) (fails : YearStep → Bool) (finalDirectory : Place)
    (manifest : Manifest Content) (tree : FileTree Name Content) (log : List (Removal Content)) : CleanupOutcome Content :=
  if fails .writeManifest then (tree, log, some "cannot write manifest: ")
  else
    match tree.writeFile (finalDirectory ++ [manifestName]) (sys.dump manifest) with
    | none => (tree, log, some "cannot write manifest: ")
    | some saved => (saved, log, none)

/-- From the deletions on. -/
def cleanupVerified [DecidableEq Content] (sys : YearSystem Content) (fails : YearStep → Bool) (finalDirectory : Place)
    (deleteMonthlyDatabases : Bool) (manifest : Manifest Content) (removable : List Place)
    (tree : FileTree Name Content) : CleanupOutcome Content :=
  match deleteFiles fails removable tree [] with
  | (deleted, log, some error) => (deleted, log, some error)
  | (deleted, log, none) =>
      match removeMappingRoots sys fails manifest.mappings deleted log with
      | (emptied, log) =>
          match (if deleteMonthlyDatabases then deleteDatabases sys fails manifest.databases emptied log
            else (emptied, log, none)) with
          | (cleaned, log, some error) => (cleaned, log, some error)
          | (cleaned, log, none) =>
              saveCleanedManifest sys fails finalDirectory { manifest with phase := cleanedPhase deleteMonthlyDatabases }
                cleaned log

/-- The manifest of a directory, if there is one that a cleanup may start from. -/
def readManifest (sys : YearSystem Content) (tree : FileTree Name Content) (finalDirectory : Place) :
    Except String (Manifest Content) :=
  match (sys.contentAt tree (finalDirectory ++ [manifestName])).bind sys.parse with
  | none => .error "archive manifest was not found"
  | some manifest =>
      if manifest.phase = .published || manifest.phase = .sourceFilesCleaned then .ok manifest
      else .error "archive manifest is not ready for cleanup"

/-- `cleanupYearMoveFiles`: the tree afterwards, the deletions, and the error if there is one. -/
def cleanupYearMoveFiles [DecidableEq Content] (sys : YearSystem Content) (fails : YearStep → Bool)
    (finalDirectory : Place) (deleteMonthlyDatabases : Bool) (tree : FileTree Name Content) : CleanupOutcome Content :=
  match readManifest sys tree finalDirectory with
  | .error message => (tree, [], some message)
  | .ok manifest =>
      match verifyFiles sys fails tree manifest.files with
      | .error message => (tree, [], some message)
      | .ok removable => cleanupVerified sys fails finalDirectory deleteMonthlyDatabases manifest removable tree

/-! ## What a cleanup may delete -/

section Deletions

variable [DecidableEq Content] {sys : YearSystem Content} {fails : YearStep → Bool} {finalDirectory : Place}
  {deleteMonthlyDatabases : Bool} {manifest : Manifest Content} {now tree next : FileTree Name Content}
  {log more : List (Removal Content)} {error : Option String}

/-- A database is checked against the manifest at its deletion. -/
structure ArchivedDatabase.Confirmed (sys : YearSystem Content) (tree : FileTree Name Content)
    (database : ArchivedDatabase Content) : Prop where
  selected : ¬ (database.kind = .prd ∧ database.month = 12)
  present : (sys.status tree database.source).isSome
  archived : sys.contentAt tree database.target = some database.targetContent
  cacheable : database.fingerprint.cacheable = true
  unchanged : database.unchanged sys tree = true

/-- The sources of the manifest that are still there. -/
def Manifest.remaining (sys : YearSystem Content) (manifest : Manifest Content) (tree : FileTree Name Content) :
    List Place :=
  (manifest.files.filter fun file => (sys.status tree file.source).isSome).map CopiedFile.source

/-- A deletion of what the archive holds, or of an empty directory, in the tree that it meets. -/
inductive Verified (sys : YearSystem Content) (manifest : Manifest Content) (deleteMonthlyDatabases : Bool)
    (removal : Removal Content) : Prop where
  | file (file : CopiedFile Content) (listed : file ∈ manifest.files) (place : file.source = removal.place)
      (source : sys.contentAt removal.tree file.source = some file.content)
      (target : sys.contentAt removal.tree file.target = some file.content)
  | root (listed : removal.place ∈ manifest.mappings) (other : sys.isTlgRoot removal.place = false)
      (directory : removal.tree.node removal.place = some .directory)
  | database (database : ArchivedDatabase Content) (listed : database ∈ manifest.databases)
      (place : database.source = removal.place) (chosen : deleteMonthlyDatabases = true)
      (confirmed : database.Confirmed sys removal.tree)

/-- A mapping root that is no directory any more, where the loop over the roots meets it. -/
structure Manifest.Replaced (sys : YearSystem Content) (manifest : Manifest Content) (tree : FileTree Name Content)
    (root : Place) : Prop where
  listed : root ∈ manifest.mappings
  other : sys.isTlgRoot root = false
  stored : ∃ node, tree.node root = some node ∧ node ≠ .directory
  unlisted : root ∉ manifest.remaining sys tree

/-- The reasons for a deletion: a replaced root is removed like an empty one, if the loop over the
files has come to its end. -/
inductive Justified (sys : YearSystem Content) (manifest : Manifest Content) (deleteMonthlyDatabases : Bool)
    (now : FileTree Name Content) (removal : Removal Content) : Prop where
  | verified (reason : Verified sys manifest deleteMonthlyDatabases removal)
  | replaced (once : (manifest.remaining sys now).Nodup) (root : manifest.Replaced sys now removal.place)

/-- The manifest of a published year: its sources lie outside the archive, its targets inside. -/
structure Manifest.Apart (manifest : Manifest Content) (finalDirectory : Place) : Prop where
  sources : ∀ file ∈ manifest.files, ¬ finalDirectory <+: file.source
  targets : ∀ file ∈ manifest.files, finalDirectory <+: file.target
  roots : ∀ source ∈ manifest.mappings, ¬ finalDirectory <+: source
  databases : ∀ database ∈ manifest.databases, ¬ finalDirectory <+: database.source

/-- A cleanup under way: the archive is untouched, and whatever is missing was deleted for a reason. -/
structure CleanedSoFar (sys : YearSystem Content) (finalDirectory : Place) (manifest : Manifest Content)
    (deleteMonthlyDatabases : Bool) (now tree : FileTree Name Content) (log : List (Removal Content)) : Prop where
  archive : ∀ place, finalDirectory <+: place → tree.node place = now.node place
  shrinks : ∀ place node, tree.node place = some node → now.node place = some node
  logged : ∀ place node, now.node place = some node →
    tree.node place = some node ∨ ∃ removal ∈ log, removal.place = place
  justified : ∀ removal ∈ log, Justified sys manifest deleteMonthlyDatabases now removal

omit [DecidableEq Content] in
theorem cleanedSoFar_start : CleanedSoFar sys finalDirectory manifest deleteMonthlyDatabases now now [] where
  archive _ _ := rfl
  shrinks _ _ found := found
  logged _ _ found := .inl found
  justified _ member := absurd member List.not_mem_nil

omit [DecidableEq Content] in
theorem CleanedSoFar.remove {place : Place}
    (soFar : CleanedSoFar sys finalDirectory manifest deleteMonthlyDatabases now tree log)
    (outside : ¬ finalDirectory <+: place) (removed : tree.remove place = some next)
    (reason : Justified sys manifest deleteMonthlyDatabases now ⟨place, tree⟩) :
    CleanedSoFar sys finalDirectory manifest deleteMonthlyDatabases now next (log ++ [⟨place, tree⟩]) := by
  obtain ⟨-, -, gone, elsewhere⟩ := FileTree.remove_eq_some removed
  constructor
  · intro other below
    have apart : place ≠ other := fun same => outside (same ▸ below)
    rw [elsewhere other apart, soFar.archive other below]
  · intro other node found
    by_cases same : place = other
    · subst same
      rw [gone] at found
      cases found
    · exact soFar.shrinks other node ((elsewhere other same).symm.trans found)
  · intro other node found
    by_cases same : place = other
    · exact .inr ⟨⟨place, tree⟩, by simp, same⟩
    · rcases soFar.logged other node found with still | ⟨removal, member, at_⟩
      · exact .inl ((elsewhere other same).trans still)
      · exact .inr ⟨removal, List.mem_append_left _ member, at_⟩
  · intro removal member
    rcases List.mem_append.mp member with earlier | last
    · exact soFar.justified removal earlier
    · obtain rfl := List.mem_singleton.mp last
      exact reason

/-- A loop that comes to its end has checked every source that is still there. -/
theorem verifyFiles_eq_ok (files : List (CopiedFile Content)) :
    ∀ {removable : List Place}, verifyFiles sys fails tree files = .ok removable →
      removable = (files.filter fun file => (sys.status tree file.source).isSome).map CopiedFile.source ∧
        ∀ file ∈ files, (sys.status tree file.source).isSome →
          fails (.hashFile file.source) = false ∧ fails (.hashFile file.target) = false ∧
            file.verified sys tree = true := by
  induction files with
  | nil =>
      intro removable run
      cases run
      exact ⟨rfl, fun _ member => absurd member List.not_mem_nil⟩
  | cons file rest ih =>
      intro removable run
      unfold verifyFiles at run
      split at run
      · cases run
      split at run
      · rename_i absent
        have gone : (sys.status tree file.source).isSome = false := by simpa using absent
        obtain ⟨others, all⟩ := ih run
        rw [List.filter_cons, gone]
        refine ⟨others, fun other member present => ?_⟩
        rcases List.mem_cons.mp member with rfl | later
        · rw [gone] at present
          cases present
        · exact all other later present
      split at run
      · cases run
      rename_i present fine
      have there : (sys.status tree file.source).isSome = true := by
        simpa [Option.isSome_iff_ne_none] using present
      have checked : fails (.hashFile file.source) = false ∧ fails (.hashFile file.target) = false ∧
          file.verified sys tree = true := by simpa [and_assoc] using fine
      split at run
      · cases run
      · rename_i others found
        cases run
        obtain ⟨same, all⟩ := ih found
        rw [List.filter_cons, there, if_pos rfl, List.map_cons, same]
        refine ⟨rfl, fun other member present => ?_⟩
        rcases List.mem_cons.mp member with rfl | later
        · exact checked
        · exact all other later present

/-- The files that are still there were all checked, each once; a loop that comes to its end has
deleted them. -/
theorem deleteFiles_spec (apart : manifest.Apart finalDirectory) (removable : List Place) :
    ∀ {tree next : FileTree Name Content} {log more : List (Removal Content)} {error : Option String},
      CleanedSoFar sys finalDirectory manifest deleteMonthlyDatabases now tree log →
      (∀ source ∈ removable, ∃ file ∈ manifest.files, file.source = source ∧ file.verified sys now = true) →
      deleteFiles fails removable tree log = (next, more, error) →
        CleanedSoFar sys finalDirectory manifest deleteMonthlyDatabases now next more ∧
          (∀ place, tree.node place = none → next.node place = none) ∧
          (error = none → removable.Nodup ∧ ∀ source ∈ removable,
            (tree.node source).isSome ∧ next.node source = none) := by
  induction removable with
  | nil =>
      intro tree next log more error soFar _ run
      cases run
      exact ⟨soFar, fun _ gone => gone, fun _ => ⟨List.nodup_nil, fun _ member => absurd member List.not_mem_nil⟩⟩
  | cons source rest ih =>
      intro tree next log more error soFar verified run
      have stopped {message : String} (same : (tree, log, some message) = (next, more, error)) :
          CleanedSoFar sys finalDirectory manifest deleteMonthlyDatabases now next more ∧
            (∀ place, tree.node place = none → next.node place = none) ∧
            (error = none → (source :: rest).Nodup ∧ ∀ other ∈ source :: rest,
              (tree.node other).isSome ∧ next.node other = none) := by
        cases same
        exact ⟨soFar, fun _ gone => gone, fun done => absurd done (by simp)⟩
      unfold deleteFiles at run
      split at run
      · exact stopped run
      split at run
      · exact stopped run
      rename_i removedTree removed
      obtain ⟨file, listed, rfl, held⟩ := verified source List.mem_cons_self
      obtain ⟨sourceHeld, targetHeld⟩ := by simpa [CopiedFile.verified] using held
      obtain ⟨-, present, gone, elsewhere⟩ := FileTree.remove_eq_some removed
      obtain ⟨node, found⟩ := Option.isSome_iff_exists.mp present
      have same : tree.node file.source = now.node file.source := found.trans (soFar.shrinks _ _ found).symm
      have reason : Verified sys manifest deleteMonthlyDatabases ⟨file.source, tree⟩ :=
        .file file listed rfl ((contentAt_eq same).trans sourceHeld)
          ((contentAt_eq (soFar.archive _ (apart.targets file listed))).trans targetHeld)
      obtain ⟨later, absent, finished⟩ := ih (soFar.remove (apart.sources file listed) removed (.verified reason))
        (fun other member => verified other (List.mem_cons_of_mem _ member)) run
      refine ⟨later, fun place free => ?_, fun done => ?_⟩
      · by_cases here : file.source = place
        · exact absent place (here ▸ gone)
        · exact absent place ((elsewhere place here).trans free)
      · obtain ⟨once, deleted⟩ := finished done
        have other : file.source ∉ rest := by
          intro again
          have still := (deleted _ again).1
          rw [gone] at still
          cases still
        refine ⟨List.nodup_cons.mpr ⟨other, once⟩, fun place member => ?_⟩
        rcases List.mem_cons.mp member with rfl | later
        · exact ⟨present, absent _ gone⟩
        · have different : file.source ≠ place := fun same => other (same ▸ later)
          obtain ⟨stillThere, goneAfter⟩ := deleted place later
          rw [elsewhere place different] at stillThere
          exact ⟨stillThere, goneAfter⟩

theorem removeMappingRoots_spec (apart : manifest.Apart finalDirectory) (once : (manifest.remaining sys now).Nodup)
    (roots : List Place) :
    ∀ {tree next : FileTree Name Content} {log more : List (Removal Content)},
      CleanedSoFar sys finalDirectory manifest deleteMonthlyDatabases now tree log →
      (∀ source ∈ manifest.remaining sys now, tree.node source = none) →
      (∀ root ∈ roots, root ∈ manifest.mappings) → removeMappingRoots sys fails roots tree log = (next, more) →
        CleanedSoFar sys finalDirectory manifest deleteMonthlyDatabases now next more := by
  induction roots with
  | nil =>
      intro tree next log more soFar _ _ run
      cases run
      exact soFar
  | cons root rest ih =>
      intro tree next log more soFar deleted listed run
      have others : ∀ other ∈ rest, other ∈ manifest.mappings :=
        fun other member => listed other (List.mem_cons_of_mem _ member)
      have here := listed root List.mem_cons_self
      unfold removeMappingRoots at run
      split at run
      · exact ih soFar deleted others run
      rename_i chosen
      split at run
      · exact ih soFar deleted others run
      rename_i removedTree removed
      have facts : sys.isTlgRoot root = false ∧ fails (.removeRoot root) = false := by simpa using chosen
      obtain ⟨-, present, gone, elsewhere⟩ := FileTree.remove_eq_some removed
      obtain ⟨node, found⟩ := Option.isSome_iff_exists.mp present
      have reason : Justified sys manifest deleteMonthlyDatabases now ⟨root, tree⟩ := by
        by_cases directory : node = .directory
        · exact .verified (.root here facts.1 (found.trans (congrArg some directory)))
        · refine .replaced once ⟨here, facts.1, ⟨node, soFar.shrinks _ _ found, directory⟩, fun listedFile => ?_⟩
          rw [deleted root listedFile] at found
          cases found
      refine ih (soFar.remove (apart.roots root here) removed reason) (fun source member => ?_) others run
      have free := deleted source member
      by_cases same : root = source
      · exact same ▸ gone
      · exact (elsewhere source same).trans free

theorem deleteDatabases_spec (apart : manifest.Apart finalDirectory) (databases : List (ArchivedDatabase Content)) :
    ∀ {tree next : FileTree Name Content} {log more : List (Removal Content)} {error : Option String},
      CleanedSoFar sys finalDirectory manifest true now tree log →
      (∀ database ∈ databases, database ∈ manifest.databases) →
      deleteDatabases sys fails databases tree log = (next, more, error) →
        CleanedSoFar sys finalDirectory manifest true now next more := by
  induction databases with
  | nil =>
      intro tree next log more error soFar _ run
      cases run
      exact soFar
  | cons database rest ih =>
      intro tree next log more error soFar listed run
      have others : ∀ other ∈ rest, other ∈ manifest.databases :=
        fun other member => listed other (List.mem_cons_of_mem _ member)
      have here := listed database List.mem_cons_self
      have stopped {message : String} (same : (tree, log, some message) = (next, more, error)) :
          CleanedSoFar sys finalDirectory manifest true now next more := by
        cases same
        exact soFar
      unfold deleteDatabases at run
      split at run
      · exact ih soFar others run
      rename_i selected
      split at run
      · exact stopped run
      split at run
      · exact ih soFar others run
      rename_i present
      split at run
      · exact stopped run
      rename_i archived
      split at run
      · exact stopped run
      rename_i cacheable
      split at run
      · exact stopped run
      rename_i unchanged
      split at run
      · exact stopped run
      split at run
      · exact stopped run
      rename_i removedTree removed
      refine ih (soFar.remove (apart.databases database here) removed
        (.verified (.database database here rfl rfl ?_))) others run
      constructor
      · simpa using selected
      · simpa [Option.isSome_iff_ne_none] using present
      · have facts : fails (.hashFile database.target) = false ∧
            sys.contentAt tree database.target = some database.targetContent := by simpa using archived
        exact facts.2
      · simpa using cacheable
      · have facts : fails (.inspect database.source) = false ∧ database.unchanged sys tree = true := by
          simpa using unchanged
        exact facts.2

/-- What a cleanup amounts to: deletions for a reason, the archive left alone but for the
manifest, and nothing at all while a file of the manifest is not verified. -/
structure CleanedUp (sys : YearSystem Content) (finalDirectory : Place) (manifest : Manifest Content)
    (deleteMonthlyDatabases : Bool) (now : FileTree Name Content) (outcome : CleanupOutcome Content) : Prop where
  justified : ∀ removal ∈ outcome.2.1, Justified sys manifest deleteMonthlyDatabases now removal
  logged : ∀ place node, now.node place = some node → place ≠ finalDirectory ++ [manifestName] →
    outcome.1.node place = some node ∨ ∃ removal ∈ outcome.2.1, removal.place = place
  archive : ∀ place, finalDirectory <+: place → place ≠ finalDirectory ++ [manifestName] →
    outcome.1.node place = now.node place
  nothing : (∃ file ∈ manifest.files, (sys.status now file.source).isSome ∧ file.verified sys now = false) →
    outcome.1 = now ∧ outcome.2.1 = []

omit [DecidableEq Content] in
theorem saveCleanedManifest_spec {current : Manifest Content}
    (run : saveCleanedManifest sys fails finalDirectory current tree log = (next, more, error)) :
    more = log ∧ ∀ place, place ≠ finalDirectory ++ [manifestName] → next.node place = tree.node place := by
  unfold saveCleanedManifest at run
  split at run
  · cases run
    exact ⟨rfl, fun _ _ => rfl⟩
  split at run
  · cases run
    exact ⟨rfl, fun _ _ => rfl⟩
  · rename_i saved written
    cases run
    exact ⟨rfl, fun place other => (FileTree.writeFile_eq_some written).2.2 place (Ne.symm other)⟩

theorem cleanupVerified_spec (apart : manifest.Apart finalDirectory)
    (verified : ∀ source ∈ manifest.remaining sys now,
      ∃ file ∈ manifest.files, file.source = source ∧ file.verified sys now = true)
    (run : cleanupVerified sys fails finalDirectory deleteMonthlyDatabases manifest (manifest.remaining sys now) now =
      (next, more, error)) :
    ∃ cleaned, CleanedSoFar sys finalDirectory manifest deleteMonthlyDatabases now cleaned more ∧
      ∀ place, place ≠ finalDirectory ++ [manifestName] → next.node place = cleaned.node place := by
  unfold cleanupVerified at run
  split at run
  · rename_i deleted
    cases run
    exact ⟨_, (deleteFiles_spec apart _ cleanedSoFar_start verified deleted).1, fun _ _ => rfl⟩
  rename_i deleted
  obtain ⟨first, -, finished⟩ := deleteFiles_spec apart _
    (cleanedSoFar_start : CleanedSoFar sys finalDirectory manifest deleteMonthlyDatabases now now []) verified deleted
  obtain ⟨once, gone⟩ := finished rfl
  split at run
  rename_i emptied
  have second := removeMappingRoots_spec apart once manifest.mappings first (fun source member => (gone source member).2)
    (fun _ member => member) emptied
  cases deleteMonthlyDatabases with
  | false =>
      simp only [Bool.false_eq_true, if_false] at run
      obtain ⟨rfl, same⟩ := saveCleanedManifest_spec run
      exact ⟨_, second, same⟩
  | true =>
      simp only [if_true] at run
      split at run
      · rename_i databases
        cases run
        exact ⟨_, deleteDatabases_spec apart manifest.databases second (fun _ member => member) databases, fun _ _ => rfl⟩
      · rename_i databases
        have third := deleteDatabases_spec apart manifest.databases second (fun _ member => member) databases
        obtain ⟨rfl, same⟩ := saveCleanedManifest_spec run
        exact ⟨_, third, same⟩

theorem cleanupYearMoveFiles_spec (apart : manifest.Apart finalDirectory)
    (read : readManifest sys now finalDirectory = .ok manifest) :
    CleanedUp sys finalDirectory manifest deleteMonthlyDatabases now
      (cleanupYearMoveFiles sys fails finalDirectory deleteMonthlyDatabases now) := by
  unfold cleanupYearMoveFiles
  rw [read]
  dsimp only
  split
  · exact ⟨fun _ member => absurd member List.not_mem_nil, fun _ _ found _ => .inl found, fun _ _ _ => rfl,
      fun _ => ⟨rfl, rfl⟩⟩
  rename_i removable checked
  obtain ⟨rfl, all⟩ := verifyFiles_eq_ok manifest.files checked
  have verified : ∀ source ∈ manifest.remaining sys now,
      ∃ file ∈ manifest.files, file.source = source ∧ file.verified sys now = true := by
    intro source member
    obtain ⟨file, kept, rfl⟩ := List.mem_map.mp member
    obtain ⟨listed, there⟩ := List.mem_filter.mp kept
    exact ⟨file, listed, rfl, (all file listed there).2.2⟩
  cases run : cleanupVerified sys fails finalDirectory deleteMonthlyDatabases manifest (manifest.remaining sys now) now
  rename_i next outcome
  obtain ⟨more, error⟩ := outcome
  obtain ⟨cleaned, soFar, same⟩ := cleanupVerified_spec apart verified run
  have outcome : cleanupVerified sys fails finalDirectory deleteMonthlyDatabases manifest
      ((manifest.files.filter fun file => (sys.status now file.source).isSome).map CopiedFile.source) now =
      (next, more, error) := run
  rw [outcome]
  constructor
  · exact soFar.justified
  · intro place node found other
    rcases soFar.logged place node found with still | removed
    · exact .inl ((same place other).trans still)
    · exact .inr removed
  · exact fun place below other => (same place other).trans (soFar.archive place below)
  · rintro ⟨file, listed, present, wrong⟩
    rw [(all file listed present).2.2] at wrong
    cases wrong

end Deletions

end SearchEngine.Archive
