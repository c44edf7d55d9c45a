import SearchEngine.Files.WindowsPath
import SearchEngine.Watcher.FileEventDispatcher

/-!
# Which files of a tree are indexed

The scanner walks the tree below an index root; a watcher of the root reports names
relative to the directory it was opened on, which the dispatcher put together from
the parent and the last name of the root. Both build a path and ask the filters.
-/

namespace SearchEngine.Files

open SearchEngine.Watcher (FileEvent)

/-! ## Trees -/

/-- A file: which directory entry it is, and what is read of it. -/
structure TreeFile where
  entry : Nat
  regular : Bool
  mtimeTicks : Int
  size : Nat
  content : Option (List (Fin 256))
deriving DecidableEq

/-- The entries of a directory in the order of an iterator; a directory may be one that
an iterator does not enter. -/
inductive Tree where
  | ended
  | file (name : FileName) (file : TreeFile) (rest : Tree)
  | directory (name : FileName) (entered : Bool) (content rest : Tree)

/-- A file of a tree: the names that lead to it and whether an iterator gets there. -/
structure Place where
  names : List FileName
  reached : Bool
  file : TreeFile
deriving DecidableEq

/-- The files of a tree. -/
def Tree.places : Tree → List Place
  | .ended => []
  | .file name found rest => ⟨[name], true, found⟩ :: rest.places
  | .directory name entered content rest =>
      content.places.map (fun place => ⟨name :: place.names, entered && place.reached, place.file⟩) ++
        rest.places

/-- What an iterator meets in the tree at a directory. -/
def Tree.listing (dir : Path) : Tree → Listing
  | .ended => .ended
  | .file name found rest =>
      .file (append dir name.1) found.regular (some found.size) (rest.listing dir)
  | .directory name entered content rest =>
      .directory (append dir name.1) (if entered then content.listing (append dir name.1) else .ended)
        (rest.listing dir)

theorem Tree.names_ne_nil {tree : Tree} {place : Place} (member : place ∈ tree.places) :
    place.names ≠ [] := by
  induction tree generalizing place with
  | ended => cases member
  | file name file rest ih =>
      rcases List.mem_cons.mp member with rfl | later
      · exact List.cons_ne_nil _ _
      · exact ih later
  | directory name entered content rest _ ih =>
      rcases List.mem_append.mp member with inner | later
      · obtain ⟨_, _, rfl⟩ := List.mem_map.mp inner
        exact List.cons_ne_nil _ _
      · exact ih later

/-! ## The configuration -/

/-- The settings that decide what is indexed. -/
structure IndexSettings where
  indexRoots : List Path
  selection : Selection
  excludedSubtrees : List Path

/-- The filters of the settings. -/
def IndexSettings.rules (settings : IndexSettings) (table : CaseTable) : ScanRules where
  isPathExcluded := isPathExcluded table settings.excludedSubtrees
  matchesPath := matchesPath table settings.selection

/-- The settings pass `validateConfiguredIndexPaths`. -/
def IndexSettings.Accepted (settings : IndexSettings) : Prop :=
  validateConfiguredIndexPaths settings.indexRoots settings.excludedSubtrees = none

instance (settings : IndexSettings) : Decidable settings.Accepted :=
  inferInstanceAs (Decidable (_ = none))

theorem IndexSettings.Accepted.rooted {settings : IndexSettings} (accepted : settings.Accepted)
    {root : Path} (member : root ∈ settings.indexRoots) : Rooted root := by
  unfold IndexSettings.Accepted validateConfiguredIndexPaths at accepted
  split at accepted
  · cases accepted
  · split at accepted
    · cases accepted
    · rename_i absolute
      simp only [Bool.not_eq_true', Bool.not_eq_false, List.all_eq_true] at absolute
      exact rooted_of_isAbsolute (absolute root member)

/-! ## The scanner -/

variable {table : CaseTable} {settings : IndexSettings}

/-- The tests of the scanner refuse every path below an excluded directory. -/
theorem lists_of_excluded {dir : Path} (rooted : Rooted dir)
    (excluded : isPathExcluded table settings.excludedSubtrees dir = true) (names : List FileName)
    (regular : Bool) (size : Option Nat) :
    lists (settings.rules table) (iteratedPath dir names) regular size = false := by
  have below : (settings.rules table).isPathExcluded (iteratedPath dir names) = true :=
    isPathExcluded_iteratedPath table settings.excludedSubtrees rooted names excluded
  simp [lists, below]

/-- What the scanner lists in a tree: the places it reaches whose file passes its tests. -/
theorem mem_walk_listing {dir : Path} (rooted : Rooted dir) (tree : Tree) (path : Path) :
    (walk (settings.rules table) (tree.listing dir)).2 = false ∧
      (path ∈ (walk (settings.rules table) (tree.listing dir)).1 ↔
        ∃ place ∈ tree.places, place.reached = true ∧ iteratedPath dir place.names = path ∧
          lists (settings.rules table) path place.file.regular (some place.file.size) = true) := by
  induction tree generalizing dir path with
  | ended => simp [Tree.listing, Tree.places, walk]
  | file name found rest ih =>
      obtain ⟨completed, later⟩ := ih rooted path
      refine ⟨completed, ?_⟩
      have first : path ∈ (walk (settings.rules table) ((Tree.file name found rest).listing dir)).1 ↔
          (append dir name.1 = path ∧
            lists (settings.rules table) path found.regular (some found.size) = true) ∨
            path ∈ (walk (settings.rules table) (rest.listing dir)).1 := by
        simp only [Tree.listing, walk]
        split
        · rename_i listed
          rw [List.mem_cons]
          constructor
          · rintro (rfl | member)
            · exact .inl ⟨rfl, listed⟩
            · exact .inr member
          · rintro (⟨rfl, -⟩ | member)
            · exact .inl rfl
            · exact .inr member
        · rename_i refused
          constructor
          · exact .inr
          · rintro (⟨rfl, listed⟩ | member)
            · exact absurd listed refused
            · exact member
      rw [first, later]
      simp [Tree.places, iteratedPath]
  | directory name entered content rest inner ih =>
      obtain ⟨completed, later⟩ := ih rooted path
      obtain ⟨innerCompleted, innerListed⟩ := inner (rooted.append_name name.1) path
      have split : (∃ place ∈ (Tree.directory name entered content rest).places,
          place.reached = true ∧ iteratedPath dir place.names = path ∧
            lists (settings.rules table) path place.file.regular (some place.file.size) = true) ↔
          (entered = true ∧ ∃ place ∈ content.places, place.reached = true ∧
            iteratedPath (append dir name.1) place.names = path ∧
              lists (settings.rules table) path place.file.regular (some place.file.size) = true) ∨
            path ∈ (walk (settings.rules table) (rest.listing dir)).1 := by
        rw [later]
        simp only [Tree.places, List.mem_append, List.mem_map, or_and_right, exists_or]
        refine or_congr ⟨?_, ?_⟩ Iff.rfl
        · rintro ⟨_, ⟨place, member, rfl⟩, reached, same, listed⟩
          rw [Bool.and_eq_true] at reached
          exact ⟨reached.1, place, member, reached.2, same, listed⟩
        · rintro ⟨enters, place, member, reached, same, listed⟩
          exact ⟨_, ⟨place, member, rfl⟩, by simp [enters, reached], same, listed⟩
      rw [split]
      simp only [Tree.listing, walk]
      by_cases excluded : (settings.rules table).isPathExcluded (append dir name.1) = true
      · rw [if_pos excluded]
        refine ⟨completed, ⟨.inr, ?_⟩⟩
        rintro (⟨-, place, -, -, rfl, listed⟩ | member)
        · rw [lists_of_excluded (rooted.append_name name.1) excluded] at listed
          cases listed
        · exact member
      · rw [if_neg excluded]
        cases entered with
        | true =>
            simp only [if_true, innerCompleted, Bool.false_eq_true, if_false, List.mem_append,
              innerListed, true_and]
            exact ⟨completed, trivial⟩
        | false => simp [walk, completed]

/-! ## The two ways -/

/-- `shouldAcceptFileEvent` on a path. -/
def shouldAcceptFileEvent (rules : ScanRules) (evt : FileEvent) (path : Path) : Bool :=
  if !rules.matchesPath path then false
  else if evt ≠ .removed && evt ≠ .renamedOld && rules.isPathExcluded path then false
  else true

/-- The directory `initWatchers` has a watcher opened on for an index root. -/
def watchedRoot (root : Path) : Path := append (parentPath root) (filename root)

/-- The path a watcher of the root reports for an entry. -/
def reportedPath (root : Path) (names : List FileName) : Path :=
  append (watchedRoot root) (relativeName names)

/-- The event leads to the indexing of the file: `shouldAcceptFileEvent` passes it and
`enqueueFileUpdate` finds a regular file. -/
def IndexedLive (rules : ScanRules) (evt : FileEvent) (root : Path) (place : Place) : Prop :=
  shouldAcceptFileEvent rules evt (reportedPath root place.names) = true ∧ place.file.regular = true

instance (rules : ScanRules) (evt : FileEvent) (root : Path) (place : Place) :
    Decidable (IndexedLive rules evt root place) := inferInstanceAs (Decidable (_ = true ∧ _ = true))

/-- The scanner lists the file. -/
def IndexedByScan (rules : ScanRules) (root : Path) (tree : Tree) (place : Place) : Prop :=
  iteratedPath root place.names ∈ scanDirectory rules ⟨root, some (tree.listing root)⟩

/-- Live events and scans index the same files under the same paths. -/
structure TreeAgrees (rules : ScanRules) (root : Path) (tree : Tree) : Prop where
  files : ∀ place ∈ tree.places, ∀ evt, evt = .added ∨ evt = .modified →
    (IndexedLive rules evt root place ↔ IndexedByScan rules root tree place)
  paths : ∀ place ∈ tree.places, IndexedByScan rules root tree place →
    reportedPath root place.names = iteratedPath root place.names

/-- Whether an event that says that a file is there is accepted. -/
theorem shouldAcceptFileEvent_eq (rules : ScanRules) {evt : FileEvent} (there : evt ≠ .removed)
    (named : evt ≠ .renamedOld) (path : Path) :
    shouldAcceptFileEvent rules evt path = (rules.matchesPath path && !rules.isPathExcluded path) := by
  unfold shouldAcceptFileEvent
  cases rules.matchesPath path <;> cases rules.isPathExcluded path <;> simp [there, named]

/-- A watcher of a root that is spelled as it is put together reports the paths of the scanner. -/
theorem reportedPath_eq {root : Path} (spelled : watchedRoot root = root) {names : List FileName}
    (nonempty : names ≠ []) : reportedPath root names = iteratedPath root names := by
  rw [reportedPath, spelled, append_relativeName root nonempty]

end SearchEngine.Files
