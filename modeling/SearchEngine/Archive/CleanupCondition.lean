import SearchEngine.Archive.YearCleanup

/-!
# When a cleanup deletes verified copies only

The files are all checked before the first deletion, the databases are not: a cleanup that has
something to delete before a database has deleted it when the check of the database fails. And a
mapping root is removed unchecked, so one that has become a file is lost.
-/

namespace SearchEngine.Archive

open SearchEngine.Lib

universe u

variable {Content : Type u} {sys : YearSystem Content} {fails : YearStep → Bool} {finalDirectory : Place}
  {deleteMonthlyDatabases : Bool} {manifest : Manifest Content} {now tree next : FileTree Name Content}
  {log : List (Removal Content)}

/-- A file that is still there and does not pass its check. -/
structure CopiedFile.Fails [DecidableEq Content] (sys : YearSystem Content) (fails : YearStep → Bool) (tree : FileTree Name Content)
    (file : CopiedFile Content) : Prop where
  present : (sys.status tree file.source).isSome
  wrong : fails (.hashFile file.source) = true ∨ fails (.hashFile file.target) = true ∨ file.verified sys tree = false

/-- A database that the loop checks. -/
def ArchivedDatabase.due (sys : YearSystem Content) (tree : FileTree Name Content)
    (database : ArchivedDatabase Content) : Bool :=
  !(database.kind = .prd && database.month = 12) && (sys.status tree database.source).isSome

def Manifest.dueDatabases (sys : YearSystem Content) (manifest : Manifest Content) (tree : FileTree Name Content) :
    List (ArchivedDatabase Content) :=
  manifest.databases.filter (ArchivedDatabase.due sys tree)

/-- A database that is to be deleted and does not pass its check. -/
structure ArchivedDatabase.Fails (sys : YearSystem Content) (fails : YearStep → Bool) (tree : FileTree Name Content)
    (database : ArchivedDatabase Content) : Prop where
  due : database.due sys tree = true
  wrong : fails (.hashFile database.target) = true ∨ fails (.inspect database.source) = true ∨
    ¬ database.Confirmed sys tree

/-- What a cleanup promises: it deletes verified copies and empty directories, and nothing at all
if a check of the files, or of the databases that it is to delete, fails. -/
structure DeletesVerified [DecidableEq Content] (sys : YearSystem Content) (fails : YearStep → Bool) (manifest : Manifest Content)
    (deleteMonthlyDatabases : Bool) (now : FileTree Name Content) (outcome : CleanupOutcome Content) : Prop where
  verified : ∀ removal ∈ outcome.2.1, Verified sys manifest deleteMonthlyDatabases removal
  nothing : (∃ file ∈ manifest.files, file.Fails sys fails now) ∨
      (deleteMonthlyDatabases = true ∧ ∃ database ∈ manifest.databases, database.Fails sys fails now) →
    outcome.1 = now ∧ outcome.2.1 = []

/-- The trees from which a cleanup keeps its promise. -/
inductive Manifest.Cleanable [DecidableEq Content] (sys : YearSystem Content) (manifest : Manifest Content) (deleteMonthlyDatabases : Bool)
    (now : FileTree Name Content) : Prop where
  /-- A file is not what the manifest says, and the first loop refuses. -/
  | refused (file : CopiedFile Content) (listed : file ∈ manifest.files)
      (present : (sys.status now file.source).isSome) (wrong : file.verified sys now = false)
  /-- No database is to be deleted, and no mapping root has been replaced. -/
  | files (databases : deleteMonthlyDatabases = true → manifest.dueDatabases sys now = [])
      (roots : (manifest.remaining sys now).Nodup → ∀ root, ¬ manifest.Replaced sys now root)
  /-- Nothing can be deleted before a database, and the first one that is due stands for all. -/
  | database (chosen : deleteMonthlyDatabases = true) (files : manifest.remaining sys now = [])
      (roots : ∀ root ∈ manifest.mappings, sys.isTlgRoot root = false → (now.node root).isSome →
        now.isEmpty root = false)
      (first : ArchivedDatabase Content) (rest : List (ArchivedDatabase Content))
      (due : manifest.dueDatabases sys now = first :: rest)
      (alike : first.Confirmed sys now → ∀ other ∈ rest,
        other.source = first.source ∧ other.target = first.target ∧ other.Confirmed sys now)

theorem mem_dueDatabases {database : ArchivedDatabase Content} :
    database ∈ manifest.dueDatabases sys now ↔ database ∈ manifest.databases ∧ database.due sys now = true :=
  List.mem_filter

theorem mem_remaining {source : Place} :
    source ∈ manifest.remaining sys now ↔
      ∃ file ∈ manifest.files, (sys.status now file.source).isSome ∧ file.source = source := by
  simp [Manifest.remaining, and_assoc]

/-! ## What can be removed, and what is recorded -/

/-- What is no directory can be removed, and so can an empty one. -/
theorem isEmpty_of_node {place : Place} {node : Node Content} (stored : tree.node place = some node)
    (other : node ≠ .directory) : tree.isEmpty place = true := by
  rw [FileTree.isEmpty_iff]
  intro name
  by_contra present
  have directory := FileTree.node_parent (Option.isSome_iff_ne_none.mpr present)
  rw [stored] at directory
  exact other (Option.some.inj directory)

theorem isEmpty_remove {place other : Place} (removed : tree.remove place = some next)
    (empty : tree.isEmpty other = true) : next.isEmpty other = true := by
  obtain ⟨-, -, gone, elsewhere⟩ := FileTree.remove_eq_some removed
  rw [FileTree.isEmpty_iff] at empty ⊢
  intro name
  by_cases same : place = other ++ [name]
  · exact same ▸ gone
  · exact (elsewhere _ same).trans (empty name)

theorem replaced_isEmpty {root : Place} (replaced : manifest.Replaced sys now root) :
    (now.node root).isSome ∧ now.isEmpty root = true := by
  obtain ⟨node, stored, other⟩ := replaced.stored
  exact ⟨by rw [stored]; rfl, isEmpty_of_node stored other⟩

/-- A database that passes its check can be removed. -/
theorem removable_of_confirmed {database : ArchivedDatabase Content} (confirmed : database.Confirmed sys tree) :
    ∃ next, tree.remove database.source = some next := by
  cases stored : tree.node database.source with
  | none =>
      have present := confirmed.present
      simp [YearSystem.status, stored] at present
  | some node =>
      refine FileTree.remove_of_leaf (isEmpty_of_node stored ?_) (by rw [stored]; rfl)
      rintro rfl
      refine sys.inspects tree database.source ?_ stored
      obtain ⟨current, inspected, -⟩ := Option.any_eq_true _ _ |>.mp confirmed.unchanged
      rw [inspected]
      rfl

theorem deleteFiles_log (sources : List Place) :
    ∀ {tree : FileTree Name Content} {log : List (Removal Content)},
      log <+: (deleteFiles fails sources tree log).2.1 := by
  induction sources with
  | nil => exact List.prefix_refl _
  | cons source rest ih =>
      intro tree log
      unfold deleteFiles
      split
      · exact List.prefix_refl _
      split
      · exact List.prefix_refl _
      · exact (List.prefix_append _ _).trans ih

theorem removeMappingRoots_log (roots : List Place) :
    ∀ {tree : FileTree Name Content} {log : List (Removal Content)},
      log <+: (removeMappingRoots sys fails roots tree log).2 := by
  induction roots with
  | nil => exact List.prefix_refl _
  | cons root rest ih =>
      intro tree log
      unfold removeMappingRoots
      split
      · exact ih
      split
      · exact ih
      · exact (List.prefix_append _ _).trans ih

theorem saveCleanedManifest_log :
    (saveCleanedManifest sys fails finalDirectory manifest tree log).2.1 = log := by
  unfold saveCleanedManifest
  split
  · rfl
  split <;> rfl

/-- Roots that hold something, or are missing, stay. -/
theorem removeMappingRoots_of_filled (roots : List Place)
    (filled : ∀ root ∈ roots, sys.isTlgRoot root = false → (tree.node root).isSome → tree.isEmpty root = false) :
    removeMappingRoots sys fails roots tree log = (tree, log) := by
  induction roots with
  | nil => rfl
  | cons root rest ih =>
      have others := ih fun other member => filled other (List.mem_cons_of_mem _ member)
      unfold removeMappingRoots
      split
      · exact others
      rename_i chosen
      have other : sys.isTlgRoot root = false := by
        have facts : sys.isTlgRoot root = false ∧ fails (.removeRoot root) = false := by simpa using chosen
        exact facts.1
      cases removed : tree.remove root with
      | none => exact others
      | some next =>
          obtain ⟨empty, present, -⟩ := FileTree.remove_eq_some removed
          rw [filled root List.mem_cons_self other present] at empty
          cases empty

/-- A root that is no directory, or an empty one, goes. -/
theorem removeMappingRoots_removes (quiet : ∀ place, fails (.removeRoot place) = false) {root : Place}
    {node : Node Content} (other : sys.isTlgRoot root = false) (roots : List Place) :
    ∀ {tree : FileTree Name Content} {log : List (Removal Content)}, root ∈ roots → tree.node root = some node →
      tree.isEmpty root = true →
        ∃ removal ∈ (removeMappingRoots sys fails roots tree log).2,
          removal.place = root ∧ removal.tree.node root = some node := by
  induction roots with
  | nil => exact fun listed => absurd listed List.not_mem_nil
  | cons head rest ih =>
      intro tree log listed stored empty
      by_cases here : head = root
      · subst here
        obtain ⟨next, removed⟩ := FileTree.remove_of_leaf empty (by rw [stored]; rfl)
        refine ⟨⟨head, tree⟩, ?_, rfl, stored⟩
        unfold removeMappingRoots
        rw [if_neg (by simp [other, quiet]), removed]
        exact (removeMappingRoots_log rest).subset (by simp)
      · have later : root ∈ rest := (List.mem_cons.mp listed).resolve_left (Ne.symm here)
        unfold removeMappingRoots
        split
        · exact ih later stored empty
        split
        · exact ih later stored empty
        · rename_i next removed
          obtain ⟨-, -, -, elsewhere⟩ := FileTree.remove_eq_some removed
          exact ih later ((elsewhere root here).trans stored) (isEmpty_remove removed empty)

/-- Without a failing step every file goes, if none is named twice. -/
theorem deleteFiles_of_leaves (quiet : ∀ place, fails (.removeFile place) = false) (sources : List Place) :
    ∀ (tree : FileTree Name Content) (log : List (Removal Content)), sources.Nodup →
      (∀ source ∈ sources, (tree.node source).isSome ∧ tree.isEmpty source = true) →
      ∃ next more, deleteFiles fails sources tree log = (next, more, none) ∧
        ∀ place, place ∉ sources → next.node place = tree.node place := by
  induction sources with
  | nil => exact fun _ _ _ _ => ⟨_, _, rfl, fun _ _ => rfl⟩
  | cons source rest ih =>
      intro tree log once leaves
      obtain ⟨other, rest_once⟩ := List.nodup_cons.mp once
      obtain ⟨present, empty⟩ := leaves source List.mem_cons_self
      obtain ⟨removedTree, removed⟩ := FileTree.remove_of_leaf empty present
      obtain ⟨-, -, -, elsewhere⟩ := FileTree.remove_eq_some removed
      obtain ⟨next, more, run, same⟩ := ih _ (log ++ [⟨source, tree⟩]) rest_once fun place member => by
        have different : source ≠ place := fun eq => other (eq ▸ member)
        obtain ⟨there, leaf⟩ := leaves place (List.mem_cons_of_mem _ member)
        rw [elsewhere place different]
        exact ⟨there, isEmpty_remove removed leaf⟩
      refine ⟨next, more, ?_, fun place absent => ?_⟩
      · unfold deleteFiles
        rw [if_neg (by simp [quiet]), removed]
        exact run
      · obtain ⟨different, later⟩ := List.ne_and_not_mem_of_not_mem_cons absent
        exact (same place later).trans (elsewhere place (Ne.symm different))

/-- In a tree of the third kind a failing check is the failing check of the first database. -/
theorem first_fails {first database : ArchivedDatabase Content} {rest : List (ArchivedDatabase Content)}
    (due : manifest.dueDatabases sys now = first :: rest)
    (alike : first.Confirmed sys now → ∀ other ∈ rest,
      other.source = first.source ∧ other.target = first.target ∧ other.Confirmed sys now)
    (listed : database ∈ manifest.databases) (failing : database.Fails sys fails now) : first.Fails sys fails now := by
  have firstDue : first.due sys now = true := (mem_dueDatabases.mp (due ▸ List.mem_cons_self)).2
  refine ⟨firstDue, ?_⟩
  by_cases confirmed : first.Confirmed sys now
  · have member : database ∈ first :: rest := due ▸ mem_dueDatabases.mpr ⟨listed, failing.due⟩
    rcases List.mem_cons.mp member with rfl | other
    · exact failing.wrong
    · obtain ⟨source, target, held⟩ := alike confirmed database other
      rw [← source, ← target]
      rcases failing.wrong with wrong | wrong | wrong
      · exact .inl wrong
      · exact .inr (.inl wrong)
      · exact absurd held wrong
  · exact .inr (.inr confirmed)

variable [DecidableEq Content]

theorem deleteDatabases_log (databases : List (ArchivedDatabase Content)) :
    ∀ {tree : FileTree Name Content} {log : List (Removal Content)},
      log <+: (deleteDatabases sys fails databases tree log).2.1 := by
  induction databases with
  | nil => exact List.prefix_refl _
  | cons database rest ih =>
      intro tree log
      unfold deleteDatabases
      split
      · exact ih
      split
      · exact List.prefix_refl _
      split
      · exact ih
      split
      · exact List.prefix_refl _
      split
      · exact List.prefix_refl _
      split
      · exact List.prefix_refl _
      split
      · exact List.prefix_refl _
      split
      · exact List.prefix_refl _
      · exact (List.prefix_append _ _).trans ih

/-- The log of the files and the roots is part of that of the cleanup. -/
theorem cleanupVerified_log_roots {removable : List Place}
    (run : deleteFiles fails removable tree [] = (next, log, none)) :
    (removeMappingRoots sys fails manifest.mappings next log).2 <+:
      (cleanupVerified sys fails finalDirectory deleteMonthlyDatabases manifest removable tree).2.1 := by
  unfold cleanupVerified
  rw [run]
  dsimp only
  obtain ⟨emptied, roots⟩ := removeMappingRoots sys fails manifest.mappings next log
  dsimp only
  cases deleteMonthlyDatabases with
  | false => simp [saveCleanedManifest_log]
  | true =>
      have databases : roots <+: (deleteDatabases sys fails manifest.databases emptied roots).2.1 :=
        deleteDatabases_log manifest.databases
      simp only [if_true]
      split
      · rename_i refused
        rwa [refused] at databases
      · rename_i cleaned
        rw [saveCleanedManifest_log]
        rwa [cleaned] at databases

theorem cleanupVerified_log (removable : List Place) :
    (deleteFiles fails removable tree []).2.1 <+:
      (cleanupVerified sys fails finalDirectory deleteMonthlyDatabases manifest removable tree).2.1 := by
  rcases run : deleteFiles fails removable tree [] with ⟨deleted, log, _ | message⟩
  · exact (removeMappingRoots_log manifest.mappings).trans (cleanupVerified_log_roots run)
  · simp [cleanupVerified, run]

/-! ## Where the checks come first -/

/-- A file that fails its check stops the cleanup before it deletes anything. -/
theorem verifyFiles_refuses {file : CopiedFile Content} {files : List (CopiedFile Content)} (listed : file ∈ files)
    (failing : file.Fails sys fails tree) : ∃ message, verifyFiles sys fails tree files = .error message := by
  cases run : verifyFiles sys fails tree files with
  | error message => exact ⟨message, rfl⟩
  | ok removable =>
      obtain ⟨hashed, copied, verified⟩ := (verifyFiles_eq_ok files run).2 file listed failing.present
      rcases failing.wrong with wrong | wrong | wrong
      · rw [hashed] at wrong
        cases wrong
      · rw [copied] at wrong
        cases wrong
      · rw [verified] at wrong
        cases wrong

theorem cleanup_refuses {message : String} (read : readManifest sys now finalDirectory = .ok manifest)
    (refused : verifyFiles sys fails now manifest.files = .error message) :
    cleanupYearMoveFiles sys fails finalDirectory deleteMonthlyDatabases now = (now, [], some message) := by
  unfold cleanupYearMoveFiles
  rw [read]
  dsimp only
  rw [refused]

/-- The first database that is due stops the loop if it fails its check. -/
theorem deleteDatabases_refuses {first : ArchivedDatabase Content} {rest : List (ArchivedDatabase Content)}
    (databases : List (ArchivedDatabase Content))
    (due : databases.filter (ArchivedDatabase.due sys tree) = first :: rest) (failing : first.Fails sys fails tree) :
    ∃ message, deleteDatabases sys fails databases tree log = (tree, log, some message) := by
  induction databases with
  | nil => cases due
  | cons database others ih =>
      unfold deleteDatabases
      cases met : database.due sys tree with
      | false =>
          rw [List.filter_cons, met, if_neg (by simp)] at due
          split
          · exact ih due
          rename_i selected
          split
          · exact ⟨_, rfl⟩
          split
          · exact ih due
          rename_i present
          simp only [ArchivedDatabase.due] at met
          simp_all
      | true =>
          rw [List.filter_cons, met, if_pos rfl] at due
          obtain ⟨rfl, -⟩ := List.cons.inj due
          have facts : ¬ (database.kind = .prd ∧ database.month = 12) ∧
              (sys.status tree database.source).isSome = true := by
            simpa [ArchivedDatabase.due, imp_iff_not_or] using met
          rw [if_neg (by simpa using facts.1)]
          split
          · exact ⟨_, rfl⟩
          rw [if_neg (by simp [facts.2])]
          split
          · exact ⟨_, rfl⟩
          rename_i archived
          split
          · exact ⟨_, rfl⟩
          rename_i cacheable
          split
          · exact ⟨_, rfl⟩
          rename_i unchanged
          -- every check has passed, and the database fails one
          have stored : fails (.hashFile database.target) = false ∧
              sys.contentAt tree database.target = some database.targetContent := by simpa using archived
          have same : fails (.inspect database.source) = false ∧ database.unchanged sys tree = true := by
            simpa using unchanged
          have confirmed : database.Confirmed sys tree :=
            ⟨facts.1, facts.2, stored.2, by simpa using cacheable, same.2⟩
          rcases failing.wrong with wrong | wrong | wrong
          · rw [stored.1] at wrong
            cases wrong
          · rw [same.1] at wrong
            cases wrong
          · exact absurd confirmed wrong

theorem deletesVerified_of_cleanable (apart : manifest.Apart finalDirectory)
    (read : readManifest sys now finalDirectory = .ok manifest)
    (cleanable : manifest.Cleanable sys deleteMonthlyDatabases now) :
    DeletesVerified sys fails manifest deleteMonthlyDatabases now
      (cleanupYearMoveFiles sys fails finalDirectory deleteMonthlyDatabases now) := by
  have cleaned : CleanedUp sys finalDirectory manifest deleteMonthlyDatabases now
      (cleanupYearMoveFiles sys fails finalDirectory deleteMonthlyDatabases now) := cleanupYearMoveFiles_spec apart read
  have refuses {message : String} (stopped : verifyFiles sys fails now manifest.files = .error message) :
      DeletesVerified sys fails manifest deleteMonthlyDatabases now
        (cleanupYearMoveFiles sys fails finalDirectory deleteMonthlyDatabases now) := by
    rw [cleanup_refuses read stopped]
    exact ⟨fun _ member => absurd member List.not_mem_nil, fun _ => ⟨rfl, rfl⟩⟩
  cases cleanable with
  | refused file listed present wrong =>
      obtain ⟨message, stopped⟩ := verifyFiles_refuses listed ⟨present, .inr (.inr wrong)⟩
      exact refuses stopped
  | files databases roots =>
      refine ⟨fun removal member => ?_, ?_⟩
      · cases cleaned.justified removal member with
        | verified reason => exact reason
        | replaced once root => exact absurd root (roots once _)
      · rintro (⟨file, listed, failing⟩ | ⟨chosen, database, listed, failing⟩)
        · obtain ⟨message, stopped⟩ := verifyFiles_refuses listed failing
          rw [cleanup_refuses read stopped]
          exact ⟨rfl, rfl⟩
        · have member := mem_dueDatabases.mpr ⟨listed, failing.due⟩
          rw [databases chosen] at member
          exact absurd member List.not_mem_nil
  | database chosen files roots first rest due alike =>
      refine ⟨fun removal member => ?_, ?_⟩
      · cases cleaned.justified removal member with
        | verified reason => exact reason
        | replaced once root =>
            obtain ⟨present, empty⟩ := replaced_isEmpty root
            rw [roots _ root.listed root.other present] at empty
            cases empty
      · rintro (⟨file, listed, failing⟩ | ⟨-, database, listed, failing⟩)
        · obtain ⟨message, stopped⟩ := verifyFiles_refuses listed failing
          rw [cleanup_refuses read stopped]
          exact ⟨rfl, rfl⟩
        · cases stopped : verifyFiles sys fails now manifest.files with
          | error message =>
              rw [cleanup_refuses read stopped]
              exact ⟨rfl, rfl⟩
          | ok removable =>
              obtain ⟨message, refused⟩ : ∃ message,
                  deleteDatabases sys fails manifest.databases now [] = (now, [], some message) :=
                deleteDatabases_refuses manifest.databases due (first_fails due alike listed failing)
              have none : removable = [] := (verifyFiles_eq_ok manifest.files stopped).1.trans files
              unfold cleanupYearMoveFiles
              rw [read]
              dsimp only
              rw [stopped, none]
              simp only [cleanupVerified, deleteFiles, chosen, if_true, refused,
                removeMappingRoots_of_filled manifest.mappings roots]
              exact ⟨trivial, trivial⟩

/-! ## Where they come too late -/

/-- Without a failing query the loop over verified files comes to its end. -/
theorem verifyFiles_of_verified (quiet : ∀ place, fails (.inspectFile place) = false) (files : List (CopiedFile Content))
    (passes : ∀ file ∈ files, ¬ file.Fails sys fails tree) :
    ∃ removable, verifyFiles sys fails tree files = .ok removable := by
  induction files with
  | nil => exact ⟨[], rfl⟩
  | cons file rest ih =>
      obtain ⟨removable, run⟩ := ih fun other member => passes other (List.mem_cons_of_mem _ member)
      have here := passes file List.mem_cons_self
      unfold verifyFiles
      rw [if_neg (by simp [quiet])]
      split
      · exact ⟨removable, run⟩
      rename_i present
      have there : (sys.status tree file.source).isSome = true := by
        simpa [Option.isSome_iff_ne_none] using present
      split
      · rename_i wrong
        refine absurd ⟨there, ?_⟩ here
        simpa [or_assoc] using wrong
      · rw [run]
        exact ⟨_, rfl⟩

theorem cleanup_of_verified (read : readManifest sys now finalDirectory = .ok manifest)
    (quiet : ∀ place, fails (.inspectFile place) = false) (passes : ∀ file ∈ manifest.files, ¬ file.Fails sys fails now) :
    cleanupYearMoveFiles sys fails finalDirectory deleteMonthlyDatabases now =
      cleanupVerified sys fails finalDirectory deleteMonthlyDatabases manifest (manifest.remaining sys now) now := by
  obtain ⟨removable, run⟩ := verifyFiles_of_verified quiet manifest.files passes
  obtain ⟨rfl, -⟩ := verifyFiles_eq_ok manifest.files run
  unfold cleanupYearMoveFiles
  rw [read]
  dsimp only
  rw [run]
  rfl

theorem leaf_of_remaining (verified : ∀ file ∈ manifest.files, (sys.status now file.source).isSome →
    file.verified sys now = true) {source : Place} (listed : source ∈ manifest.remaining sys now) :
    (now.node source).isSome ∧ now.isEmpty source = true := by
  obtain ⟨file, member, present, rfl⟩ := mem_remaining.mp listed
  have held : sys.contentAt now file.source = some file.content := by
    have both := verified file member present
    simp only [CopiedFile.verified, Bool.and_eq_true, decide_eq_true_eq] at both
    exact both.1
  obtain ⟨node, stored⟩ := Option.isSome_iff_exists.mp (node_of_contentAt held)
  refine ⟨node_of_contentAt held, isEmpty_of_node stored ?_⟩
  rintro rfl
  simp [YearSystem.contentAt, YearSystem.status, stored] at held

/-- The first database that is due goes, if it passes its check. -/
theorem deleteDatabases_removes (seen : ∀ place, fails (.inspectFile place) = false)
    (quiet : ∀ place, fails (.removeDatabase place) = false) {first : ArchivedDatabase Content}
    {rest : List (ArchivedDatabase Content)} (databases : List (ArchivedDatabase Content))
    (due : databases.filter (ArchivedDatabase.due sys tree) = first :: rest) (passes : ¬ first.Fails sys fails tree) :
    (deleteDatabases sys fails databases tree log).2.1 ≠ [] := by
  induction databases with
  | nil => cases due
  | cons database others ih =>
      unfold deleteDatabases
      cases met : database.due sys tree with
      | false =>
          rw [List.filter_cons, met, if_neg (by simp)] at due
          split
          · exact ih due
          rename_i selected
          rw [if_neg (by simp [seen]), if_pos]
          · exact ih due
          · simpa [ArchivedDatabase.due, selected] using met
      | true =>
          rw [List.filter_cons, met, if_pos rfl] at due
          obtain ⟨rfl, -⟩ := List.cons.inj due
          have stored : fails (.hashFile database.target) = false := by
            by_contra wrong
            exact passes ⟨met, .inl (by simpa using wrong)⟩
          have same : fails (.inspect database.source) = false := by
            by_contra wrong
            exact passes ⟨met, .inr (.inl (by simpa using wrong))⟩
          have confirmed : database.Confirmed sys tree := by
            by_contra wrong
            exact passes ⟨met, .inr (.inr wrong)⟩
          obtain ⟨next, removed⟩ := removable_of_confirmed confirmed
          rw [if_neg (by simpa using confirmed.selected), if_neg (by simp [seen]), if_neg (by simp [confirmed.present]),
            if_neg (by simp [stored, confirmed.archived]), if_neg (by simp [confirmed.cacheable]),
            if_neg (by simp [same, confirmed.unchanged]), if_neg (by simp [quiet]), removed]
          intro nothing
          have recorded : log ++ [⟨database.source, tree⟩] <+:
              (deleteDatabases sys fails others next (log ++ [⟨database.source, tree⟩])).2.1 := deleteDatabases_log others
          rw [nothing] at recorded
          simp at recorded

/-- With nothing else to delete, a first database that passes its check is deleted. -/
theorem cleanup_removes_database (read : readManifest sys now finalDirectory = .ok manifest)
    (files : manifest.remaining sys now = [])
    (roots : ∀ root ∈ manifest.mappings, sys.isTlgRoot root = false → (now.node root).isSome → now.isEmpty root = false)
    {first : ArchivedDatabase Content} {rest : List (ArchivedDatabase Content)}
    (due : manifest.dueDatabases sys now = first :: rest) (seen : ∀ place, fails (.inspectFile place) = false)
    (quiet : ∀ place, fails (.removeDatabase place) = false) (passes : ¬ first.Fails sys fails now) :
    (cleanupYearMoveFiles sys fails finalDirectory true now).2.1 ≠ [] := by
  have absent : ∀ file ∈ manifest.files, ¬ file.Fails sys fails now := by
    intro file member failing
    have listed := mem_remaining.mpr ⟨file, member, failing.present, rfl⟩
    rw [files] at listed
    exact absurd listed List.not_mem_nil
  have removed : (deleteDatabases sys fails manifest.databases now []).2.1 ≠ [] :=
    deleteDatabases_removes seen quiet manifest.databases due passes
  rw [cleanup_of_verified read seen absent, files]
  simp only [cleanupVerified, deleteFiles, if_true, removeMappingRoots_of_filled manifest.mappings roots]
  split
  · rename_i refused
    rwa [refused] at removed
  · rename_i cleaned
    rw [saveCleanedManifest_log]
    rwa [cleaned] at removed

/-- The single step that fails. -/
def onlyFails (step other : YearStep) : Bool := decide (other = step)

theorem cleanable_of_due (read : readManifest sys now finalDirectory = .ok manifest)
    (holds : ∀ fails, DeletesVerified sys fails manifest true now (cleanupYearMoveFiles sys fails finalDirectory true now))
    (verified : ∀ file ∈ manifest.files, (sys.status now file.source).isSome → file.verified sys now = true)
    {first : ArchivedDatabase Content} {rest : List (ArchivedDatabase Content)}
    (due : manifest.dueDatabases sys now = first :: rest) : manifest.Cleanable sys true now := by
  have firstDue := mem_dueDatabases.mp (due ▸ List.mem_cons_self : first ∈ manifest.dueDatabases sys now)
  have quietly {database : ArchivedDatabase Content} (step : YearStep) (listed : database ∈ manifest.databases)
      (failing : database.Fails sys (onlyFails step) now) :
      (cleanupYearMoveFiles sys (onlyFails step) finalDirectory true now).2.1 = [] :=
    ((holds _).nothing (.inr ⟨rfl, database, listed, failing⟩)).2
  have passes : ∀ file ∈ manifest.files, ¬ file.Fails sys (onlyFails (.inspect first.source)) now := by
    rintro file member ⟨present, wrong | wrong | wrong⟩
    · simp [onlyFails] at wrong
    · simp [onlyFails] at wrong
    · rw [verified file member present] at wrong
      cases wrong
  -- the first database cannot be inspected, so whatever comes before it stays
  have stays := quietly (.inspect first.source) firstDue.1 ⟨firstDue.2, .inr (.inl (by simp [onlyFails]))⟩
  rw [cleanup_of_verified read (by simp [onlyFails]) passes] at stays
  have files : manifest.remaining sys now = [] := by
    by_contra filled
    obtain ⟨source, others, remaining⟩ := List.exists_cons_of_ne_nil filled
    obtain ⟨present, empty⟩ := leaf_of_remaining verified
      (remaining ▸ List.mem_cons_self : source ∈ manifest.remaining sys now)
    obtain ⟨next, removed⟩ := FileTree.remove_of_leaf empty present
    have recorded : [⟨source, now⟩] <+: (deleteFiles (onlyFails (.inspect first.source)) (source :: others) now []).2.1 := by
      unfold deleteFiles
      rw [if_neg (by simp [onlyFails]), removed]
      exact deleteFiles_log others
    rw [remaining] at stays
    have kept := recorded.trans (stays ▸ cleanupVerified_log (source :: others))
    simp at kept
  have roots : ∀ root ∈ manifest.mappings, sys.isTlgRoot root = false → (now.node root).isSome →
      now.isEmpty root = false := by
    intro root listed other present
    by_contra empty
    obtain ⟨node, stored⟩ := Option.isSome_iff_exists.mp present
    obtain ⟨removal, recorded, -⟩ :
        ∃ removal ∈ (removeMappingRoots sys (onlyFails (.inspect first.source)) manifest.mappings now []).2,
          removal.place = root ∧ removal.tree.node root = some node :=
      removeMappingRoots_removes (by simp [onlyFails]) other manifest.mappings listed stored (by simpa using empty)
    rw [files] at stays
    have kept : (removeMappingRoots sys (onlyFails (.inspect first.source)) manifest.mappings now []).2 <+:
        (cleanupVerified sys (onlyFails (.inspect first.source)) finalDirectory true manifest [] now).2.1 :=
      cleanupVerified_log_roots rfl
    rw [stays] at kept
    exact absurd (kept.subset recorded) List.not_mem_nil
  refine .database rfl files roots first rest due fun confirmed other member => ?_
  have otherDue := mem_dueDatabases.mp (due ▸ List.mem_cons_of_mem _ member : other ∈ manifest.dueDatabases sys now)
  -- a step that fails for the other database alone comes after the deletion of the first
  have shared (step : YearStep) (seen : ∀ place, onlyFails step (.inspectFile place) = false)
      (quiet : ∀ place, onlyFails step (.removeDatabase place) = false)
      (fine : onlyFails step (.hashFile first.target) = false ∧ onlyFails step (.inspect first.source) = false)
      (failing : other.Fails sys (onlyFails step) now) : False := by
    refine cleanup_removes_database read files roots due seen quiet ?_ (quietly step otherDue.1 failing)
    rintro ⟨-, wrong | wrong | wrong⟩
    · rw [fine.1] at wrong
      cases wrong
    · rw [fine.2] at wrong
      cases wrong
    · exact wrong confirmed
  refine ⟨?_, ?_, ?_⟩
  · by_contra different
    refine shared (.inspect other.source) (by simp [onlyFails]) (by simp [onlyFails]) ?_
      ⟨otherDue.2, .inr (.inl (by simp [onlyFails]))⟩
    simpa [onlyFails] using Ne.symm different
  · by_contra different
    refine shared (.hashFile other.target) (by simp [onlyFails]) (by simp [onlyFails]) ?_
      ⟨otherDue.2, .inl (by simp [onlyFails])⟩
    simpa [onlyFails] using Ne.symm different
  · by_contra wrong
    exact shared .publish (by simp [onlyFails]) (by simp [onlyFails]) (by simp [onlyFails])
      ⟨otherDue.2, .inr (.inr wrong)⟩

/-- A replaced root is removed, whatever it holds, by a cleanup that no step fails. -/
theorem removes_replaced (read : readManifest sys now finalDirectory = .ok manifest)
    (verified : ∀ file ∈ manifest.files, (sys.status now file.source).isSome → file.verified sys now = true)
    (once : (manifest.remaining sys now).Nodup) {root : Place} (replaced : manifest.Replaced sys now root) :
    ∃ removal ∈ (cleanupYearMoveFiles sys (fun _ => false) finalDirectory deleteMonthlyDatabases now).2.1,
      removal.place = root ∧ removal.tree.node root = now.node root := by
  have passes : ∀ file ∈ manifest.files, ¬ file.Fails sys (fun _ => false) now := by
    rintro file member ⟨present, wrong | wrong | wrong⟩
    · cases wrong
    · cases wrong
    · rw [verified file member present] at wrong
      cases wrong
  obtain ⟨node, stored, other⟩ := replaced.stored
  let never : YearStep → Bool := fun _ => false
  obtain ⟨next, log, run, same⟩ := deleteFiles_of_leaves (show ∀ place, never (.removeFile place) = false from fun _ => rfl)
    (manifest.remaining sys now) now [] once fun source member => leaf_of_remaining verified member
  have still : next.node root = some node := (same root replaced.unlisted).trans stored
  obtain ⟨removal, recorded, here, found⟩ : ∃ removal ∈ (removeMappingRoots sys (fun _ => false) manifest.mappings next log).2,
      removal.place = root ∧ removal.tree.node root = some node :=
    removeMappingRoots_removes (fun _ => rfl) replaced.other manifest.mappings replaced.listed still
      (isEmpty_of_node still other)
  rw [cleanup_of_verified read (fun _ => rfl) passes]
  exact ⟨removal, (cleanupVerified_log_roots run).subset recorded, here, found.trans stored.symm⟩

/-- A cleanup keeps its promise at every failing step exactly from the cleanable trees. -/
theorem deletesVerified_iff_cleanable (apart : manifest.Apart finalDirectory)
    (read : readManifest sys now finalDirectory = .ok manifest) :
    (∀ fails, DeletesVerified sys fails manifest deleteMonthlyDatabases now
        (cleanupYearMoveFiles sys fails finalDirectory deleteMonthlyDatabases now)) ↔
      manifest.Cleanable sys deleteMonthlyDatabases now := by
  refine ⟨fun holds => ?_, fun cleanable fails => deletesVerified_of_cleanable apart read cleanable⟩
  by_cases wrong : ∃ file ∈ manifest.files, (sys.status now file.source).isSome ∧ file.verified sys now = false
  · obtain ⟨file, listed, present, wrong⟩ := wrong
    exact .refused file listed present wrong
  have verified : ∀ file ∈ manifest.files, (sys.status now file.source).isSome → file.verified sys now = true := by
    intro file listed present
    by_contra unverified
    exact wrong ⟨file, listed, present, by simpa using unverified⟩
  by_cases due : deleteMonthlyDatabases = true ∧ manifest.dueDatabases sys now ≠ []
  · obtain ⟨rfl, filled⟩ := due
    obtain ⟨first, rest, due⟩ := List.exists_cons_of_ne_nil filled
    exact cleanable_of_due read holds verified due
  have none_due : deleteMonthlyDatabases = true → manifest.dueDatabases sys now = [] := by
    intro chosen
    by_contra filled
    exact due ⟨chosen, filled⟩
  refine .files none_due fun once root replaced => ?_
  obtain ⟨removal, recorded, rfl, same⟩ :
      ∃ removal ∈ (cleanupYearMoveFiles sys (fun _ => false) finalDirectory deleteMonthlyDatabases now).2.1,
        removal.place = root ∧ removal.tree.node root = now.node root := removes_replaced read verified once replaced
  obtain ⟨node, stored, other⟩ := replaced.stored
  cases (holds _).verified removal recorded with
  | file file listed place source target =>
      refine replaced.unlisted (mem_remaining.mpr ⟨file, listed, ?_, place⟩)
      rw [contentAt_eq (place ▸ same)] at source
      unfold YearSystem.contentAt at source
      cases met : sys.status now file.source with
      | none => simp [met] at source
      | some node => rfl
  | root listed otherRoot directory =>
      rw [same, stored] at directory
      exact other (Option.some.inj directory)
  | database database listed place chosen confirmed =>
      have present := confirmed.present
      rw [status_eq (place ▸ same)] at present
      have isDue : database.due sys now = true := by
        have selected := confirmed.selected
        simpa [ArchivedDatabase.due, present, imp_iff_not_or] using selected
      have member := mem_dueDatabases.mpr ⟨listed, isDue⟩
      rw [none_due chosen] at member
      exact absurd member List.not_mem_nil

end SearchEngine.Archive
