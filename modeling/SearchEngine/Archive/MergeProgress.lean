import Mathlib.Data.List.Infix
import SearchEngine.Archive.RestoreMerge

/-!
# What a merge keeps

Every step of `publishMergedTree`, failing or not, leaves what the target holds and loses
nothing that was staged, where no reparse point is in the way. The steps are taken up in the
order of the call.
-/

namespace SearchEngine.Archive

open SearchEngine.Lib

universe u

variable {Content : Type u}

/-! ## Trees without links in the way -/

/-- No reparse point stands in the staging tree, or in the target where a staged entry goes. -/
structure MergeLinks.Absent (links : MergeLinks Content) (trees : MergeTrees Content) : Prop where
  staging : ∀ path, trees.staging.node path = some .other → (links.staging.entry path).isLink = false
  target : ∀ path, (trees.staging.node path).isSome → trees.target.node path = some .other →
    (links.target.entry path).isLink = false
  root : trees.target.node [] = none → links.target.root = false

/-- The same once the staging tree has been searched: it holds directories and files. -/
structure MergeLinks.Clear (links : MergeLinks Content) (trees : MergeTrees Content) : Prop where
  plain : ∀ path, trees.staging.node path ≠ some .other
  target : ∀ path, (trees.staging.node path).isSome → trees.target.node path = some .other →
    (links.target.entry path).isLink = false

section Links

variable {links : Links Content} {tree : FileTree Name Content} {path : RelativePath}

theorem seen_of_special {entry : Entry Content} (special : entry.isLink = false) : entry.seen = some .other := by
  cases entry with
  | special => rfl
  | fileLink content => cases special
  | directoryLink leads => cases special

/-- Where no link stands on the way or at the place, `status` finds what is there. -/
theorem status_eq_node (on_the_way : links.isBeyond tree path = false)
    (here : tree.node path = some .other → (links.entry path).isLink = false) :
    links.status tree path = tree.node path := by
  unfold Links.status
  split
  · rename_i other
    rw [seen_of_special (here other), other]
  · rename_i stored
    exact stored.symm
  · rename_i free
    rw [on_the_way, free]
    rfl

theorem isBeyond_eq_false
    (fronts : ∀ front, front <+: path.dropLast → tree.node front = some .other → (links.entry front).isLink = false) :
    links.isBeyond tree path = false := by
  unfold Links.isBeyond
  rw [List.any_eq_false]
  intro front member
  have above := (List.mem_inits front path.dropLast).mp member
  cases stored : tree.node front with
  | none => simp
  | some node =>
      cases node with
      | directory => simp [Node.isOther]
      | file content => simp [Node.isOther]
      | other => simp [fronts front above stored]

theorem isReparsePoint_eq_false {unread : Bool} (below : path ≠ [])
    (here : tree.node path = some .other → (links.entry path).isLink = false) :
    links.isReparsePoint tree path unread = false := by
  unfold Links.isReparsePoint
  rw [if_neg below]
  cases stored : tree.node path with
  | none => simp
  | some node =>
      cases node with
      | directory => simp [Node.isOther]
      | file content => simp [Node.isOther]
      | other => simp [here stored]

/-- In a tree of directories and files nothing is followed. -/
theorem status_of_plain (plain : ∀ path, tree.node path ≠ some .other) (path : RelativePath) :
    links.status tree path = tree.node path :=
  status_eq_node (isBeyond_eq_false fun front _ other => absurd other (plain front))
    fun other => absurd other (plain path)

theorem isReparsePoint_of_plain {unread : Bool} (plain : ∀ path, tree.node path ≠ some .other) (below : path ≠ []) :
    links.isReparsePoint tree path unread = false :=
  isReparsePoint_eq_false below fun other => absurd other (plain path)

end Links

section Clear

variable {links : MergeLinks Content} {trees : MergeTrees Content} {path : RelativePath}

/-- Whatever lies above a staged entry is staged. -/
theorem staged_above (staged : (trees.staging.node path).isSome) {front : RelativePath} (above : front <+: path) :
    (trees.staging.node front).isSome := by
  obtain ⟨rest, rfl⟩ := above
  by_cases same : rest = []
  · rwa [same, List.append_nil] at staged
  · rw [FileTree.node_above staged same]
    rfl

theorem MergeLinks.Clear.isBeyond (clear : links.Clear trees) (staged : (trees.staging.node path).isSome) :
    links.target.isBeyond trees.target path = false :=
  isBeyond_eq_false fun front above =>
    clear.target front (staged_above staged (above.trans (List.dropLast_prefix path)))

theorem MergeLinks.Clear.status (clear : links.Clear trees) (staged : (trees.staging.node path).isSome) :
    links.target.status trees.target path = trees.target.node path :=
  status_eq_node (clear.isBeyond staged) (clear.target path staged)

theorem MergeLinks.Clear.isReparsePoint {unread : Bool} (clear : links.Clear trees)
    (staged : (trees.staging.node path).isSome) (below : path ≠ []) :
    links.target.isReparsePoint trees.target path unread = false :=
  isReparsePoint_eq_false below (clear.target path staged)

end Clear

/-! ## What every step keeps -/

/-- How the trees may change: nothing stored is changed or lost. -/
structure Progress (before now : MergeTrees Content) : Prop where
  kept : ∀ path node, before.target.node path = some node → now.target.node path = some node
  staged : ∀ path node, now.staging.node path = some node → before.staging.node path = some node
  added : ∀ path node, now.target.node path = some node →
    before.target.node path = some node ∨ before.staging.node path = some node
  moved : ∀ path content, before.staging.node path = some (.file content) →
    now.staging.node path = some (.file content) ∨ now.target.node path = some (.file content)

variable {before now later : MergeTrees Content} {links : MergeLinks Content} {fails : MergeStep → Bool}

theorem Progress.refl (trees : MergeTrees Content) : Progress trees trees where
  kept _ _ stored := stored
  staged _ _ stored := stored
  added _ _ stored := .inl stored
  moved _ _ stored := .inl stored

theorem Progress.trans (first : Progress before now) (second : Progress now later) : Progress before later where
  kept path node stored := second.kept path node (first.kept path node stored)
  staged path node stored := first.staged path node (second.staged path node stored)
  added path node stored := by
    rcases second.added path node stored with target | staging
    · exact first.added path node target
    · exact .inr (first.staged path node staging)
  moved path content stored := by
    rcases first.moved path content stored with staging | target
    · exact second.moved path content staging
    · exact .inr (second.kept path _ target)

theorem MergeLinks.Clear.progress (clear : links.Clear before) (progress : Progress before now) : links.Clear now where
  plain path other := clear.plain path (progress.staged path _ other)
  target path present other := by
    obtain ⟨node, staged⟩ := Option.isSome_iff_exists.mp present
    rcases progress.added path _ other with old | new
    · exact clear.target path (by rw [progress.staged path node staged]; rfl) old
    · exact absurd new (clear.plain path)

/-- Something of the staging tree comes into the target. -/
theorem progress_added {file : RelativePath} {node : Node Content} {target : FileTree Name Content}
    (staged : before.staging.node file = some node) (free : before.target.node file = none)
    (here : target.node file = some node)
    (elsewhere : ∀ place, file ≠ place → target.node place = before.target.node place) :
    Progress before ⟨before.staging, target⟩ where
  kept path stored found := by
    change target.node path = some stored
    rw [elsewhere, found]
    rintro rfl
    rw [free] at found
    cases found
  staged _ _ found := found
  added path stored found := by
    change target.node path = some stored at found
    by_cases same : file = path
    · subst same
      rw [here] at found
      exact .inr (staged.trans found)
    · exact .inl ((elsewhere path same).symm.trans found)
  moved _ _ found := .inl found

/-- Creating a directory of the staging tree. -/
theorem progress_ensureDirectory {path : RelativePath} {target : FileTree Name Content}
    (directory : before.staging.node path = some .directory)
    (done : before.target.ensureDirectory (failsToCreate fails) path = some target) :
    Progress before ⟨before.staging, target⟩ ∧ target.node path = some .directory := by
  unfold FileTree.ensureDirectory at done
  split at done
  · rename_i there
    cases done
    exact ⟨Progress.refl before, there⟩
  · cases done
  · cases done
  · split at done
    · cases done
    obtain ⟨free, -, here, elsewhere⟩ := FileTree.create_eq_some done
    exact ⟨progress_added directory free here elsewhere, here⟩

theorem progress_createDirectories (fails : MergeStep → Bool) (rest : RelativePath) :
    ∀ (front : RelativePath) (before : MergeTrees Content),
    before.staging.node (front ++ rest) = some .directory → before.target.node front = some .directory →
      Progress before ⟨before.staging, (before.target.createDirectories (failsToCreate fails) front rest).1⟩ ∧
        ((before.target.createDirectories (failsToCreate fails) front rest).2 = true →
          (before.target.createDirectories (failsToCreate fails) front rest).1.node (front ++ rest) = some .directory) := by
  induction rest with
  | nil =>
      intro front before staged stored
      rw [List.append_nil]
      exact ⟨Progress.refl before, fun _ => stored⟩
  | cons name rest ih =>
      intro front before staged stored
      have split : front ++ name :: rest = (front ++ [name]) ++ rest := by rw [List.append_assoc]; rfl
      rw [split] at staged ⊢
      unfold FileTree.createDirectories
      cases made : before.target.ensureDirectory (failsToCreate fails) (front ++ [name]) with
      | none => exact ⟨Progress.refl before, fun done => absurd done (by simp)⟩
      | some next =>
          have directory : before.staging.node (front ++ [name]) = some .directory := by
            cases rest with
            | nil => rwa [List.append_nil] at staged
            | cons head tail => exact FileTree.node_above (by rw [staged]; rfl) (List.cons_ne_nil _ _)
          obtain ⟨first, there⟩ := progress_ensureDirectory directory made
          obtain ⟨second, result⟩ := ih (front ++ [name]) ⟨before.staging, next⟩ staged there
          exact ⟨first.trans second, result⟩

theorem createTargetDirectories_eq {directory : RelativePath} (clear : links.Clear before)
    (staged : (before.staging.node directory).isSome)
    (free : (before.target.node directory).any (!·.isDirectory) = false) :
    createTargetDirectories links.target fails before.target directory =
      before.target.createDirectories (failsToCreate fails) [] directory := by
  unfold createTargetDirectories
  rw [clear.isBeyond staged, if_neg (by simp), if_neg]
  intro other
  obtain ⟨node, stored, isOther⟩ := (Option.any_eq_true _ _).mp other
  simp [stored, Node.isOther_iff.mp isOther, Node.isDirectory] at free

theorem progress_mergeDirectories (fails : MergeStep → Bool) (directories : List RelativePath) :
    ∀ before : MergeTrees Content, links.Clear before → [] ∉ directories →
    (∀ path ∈ directories, before.staging.node path = some .directory) → before.target.node [] = some .directory →
      Progress before (mergeDirectories links fails directories before).1 ∧
        (mergeDirectories links fails directories before).1.staging = before.staging ∧
        ((mergeDirectories links fails directories before).2 = none → ∀ path ∈ directories,
          (mergeDirectories links fails directories before).1.target.node path = some .directory) := by
  induction directories with
  | nil => exact fun before _ _ _ _ => ⟨Progress.refl before, rfl, fun _ _ member => absurd member List.not_mem_nil⟩
  | cons directory rest ih =>
      intro before clear below staged root
      rw [List.mem_cons, not_or] at below
      have here := staged directory List.mem_cons_self
      have present : (before.staging.node directory).isSome := by rw [here]; rfl
      unfold mergeDirectories
      simp only [clear.status present, clear.isReparsePoint present (Ne.symm below.1), Bool.or_false]
      split
      · exact ⟨Progress.refl before, rfl, fun done => absurd done (by simp)⟩
      split
      · exact ⟨Progress.refl before, rfl, fun done => absurd done (by simp)⟩
      rename_i free
      rw [createTargetDirectories_eq clear present (Bool.eq_false_iff.mpr free)]
      obtain ⟨first, there⟩ := progress_createDirectories fails directory [] before here root
      rw [List.nil_append] at there
      split
      · rename_i target made
        rw [made] at first
        exact ⟨first, rfl, fun done => absurd done (by simp)⟩
      · rename_i target made
        rw [made] at first there
        obtain ⟨second, same, result⟩ := ih ⟨before.staging, target⟩ (clear.progress first) below.2
          (fun path member => staged path (List.mem_cons_of_mem _ member)) (first.kept _ _ root)
        refine ⟨first.trans second, same, fun done path member => ?_⟩
        rcases List.mem_cons.mp member with rfl | member
        · exact second.kept _ _ (there rfl)
        · exact result done path member

/-- A file leaves the staging tree when its content is in the target. -/
theorem progress_removed {file : RelativePath} {content : Content} {staging : FileTree Name Content}
    (staged : before.staging.node file = some (.file content))
    (stored : before.target.node file = some (.file content)) (here : staging.node file = none)
    (elsewhere : ∀ place, file ≠ place → staging.node place = before.staging.node place) :
    Progress before ⟨staging, before.target⟩ where
  kept _ _ found := found
  staged path node found := by
    change staging.node path = some node at found
    rw [elsewhere] at found
    · exact found
    · rintro rfl
      rw [here] at found
      cases found
  added _ _ found := .inl found
  moved path old found := by
    by_cases same : file = path
    · subst same
      rw [staged] at found
      exact .inr (stored.trans found)
    · exact .inl ((elsewhere path same).trans found)

theorem putStaged_of_free {file : RelativePath} {staged : Node Content} (clear : links.Clear before)
    (present : (before.staging.node file).isSome) (free : before.target.node file = none) :
    putStaged links.target before.target file staged = before.target.create file staged := by
  unfold putStaged
  rw [free, clear.isBeyond present]
  rfl

/-- What one file of the loop does. -/
theorem mergeFile_cases [DecidableEq Content] {file : RelativePath} {outcome : MergeTrees Content × Option MergeError}
    (clear : links.Clear before) (below : file ≠ []) (run : mergeFile links fails before file = outcome) :
    (outcome.1 = before ∧ outcome.2.isSome) ∨
      outcome.2 = none ∧ Progress before outcome.1 ∧ outcome.1.staging.node file = none ∧
        ∀ place, file ≠ place → outcome.1.staging.node place = before.staging.node place := by
  have stay {error : MergeError} (run : (before, some error) = outcome) :
      (outcome.1 = before ∧ outcome.2.isSome) ∨
        outcome.2 = none ∧ Progress before outcome.1 ∧ outcome.1.staging.node file = none ∧
          ∀ place, file ≠ place → outcome.1.staging.node place = before.staging.node place := by
    subst run
    exact .inl ⟨rfl, rfl⟩
  unfold mergeFile at run
  split at run
  · exact stay run
  split at run
  · exact stay run
  · exact stay run
  rename_i staged notDirectory present
  have there : (before.staging.node file).isSome := by rw [present]; rfl
  simp only [clear.status there, clear.isReparsePoint there below, status_of_plain clear.plain, Bool.false_or] at run
  obtain ⟨content, rfl⟩ : ∃ content, staged = .file content := by
    cases staged with
    | directory => exact absurd rfl notDirectory
    | other => exact absurd present (clear.plain file)
    | file content => exact ⟨content, rfl⟩
  split at run
  · rename_i free
    unfold renameFile at run
    rw [putStaged_of_free clear there free] at run
    split at run
    · exact stay run
    split at run
    · rename_i target staging created removed
      subst run
      obtain ⟨-, -, here, elsewhere⟩ := FileTree.create_eq_some created
      obtain ⟨-, -, gone, others⟩ := FileTree.remove_eq_some removed
      have first := progress_added present free here elsewhere
      have second : Progress ⟨before.staging, target⟩ ⟨staging, target⟩ :=
        progress_removed present here gone others
      exact .inr ⟨rfl, first.trans second, gone, others⟩
    · exact stay run
  · rename_i stored found
    split at run
    · exact stay run
    rename_i same
    obtain rfl : content = stored := by
      by_contra differ
      simp [present, differ] at same
    unfold dropDuplicate at run
    split at run
    · exact stay run
    split at run
    · rename_i staging removed
      subst run
      obtain ⟨-, -, gone, others⟩ := FileTree.remove_eq_some removed
      exact .inr ⟨rfl, progress_removed present found gone others, gone, others⟩
    · exact stay run
  · exact stay run
  · exact stay run

theorem progress_mergeFiles [DecidableEq Content] (fails : MergeStep → Bool) (files : List RelativePath) :
    ∀ before : MergeTrees Content, links.Clear before → [] ∉ files →
    Progress before (mergeFiles links fails files before).1 ∧
      (∀ place ∉ files, (mergeFiles links fails files before).1.staging.node place = before.staging.node place) ∧
      ((mergeFiles links fails files before).2 = none → ∀ file ∈ files,
        (mergeFiles links fails files before).1.staging.node file = none) := by
  induction files with
  | nil =>
      exact fun before _ _ => ⟨Progress.refl before, fun _ _ => rfl, fun _ _ member => absurd member List.not_mem_nil⟩
  | cons file rest ih =>
      intro before clear below
      rw [List.mem_cons, not_or] at below
      unfold mergeFiles
      split
      · rename_i after error run
        rcases mergeFile_cases clear (Ne.symm below.1) run with ⟨same, -⟩ | ⟨none, -⟩
        · obtain rfl : after = before := same
          exact ⟨Progress.refl _, fun _ _ => rfl, fun done => absurd done (by simp)⟩
        · cases none
      · rename_i after run
        rcases mergeFile_cases clear (Ne.symm below.1) run with ⟨-, thrown⟩ | ⟨-, first, gone, others⟩
        · cases thrown
        obtain ⟨second, rest, result⟩ := ih after (clear.progress first) below.2
        refine ⟨first.trans second, fun place outside => ?_, fun done path member => ?_⟩
        · rw [List.mem_cons, not_or] at outside
          rw [rest place outside.2]
          exact others place (Ne.symm outside.1)
        · rcases List.mem_cons.mp member with rfl | member
          · -- nothing comes back into the staging tree
            by_contra present
            obtain ⟨node, found⟩ := Option.ne_none_iff_exists'.mp present
            have still := second.staged _ _ found
            rw [gone] at still
            cases still
          · exact result done path member

/-! ## Removing the directories -/

/-- Only directories of the list go away. -/
theorem removeDirectories_spec (fails : MergeStep → Bool) (message : String) (directories : List RelativePath) :
    ∀ tree : FileTree Name Content,
    (∀ path node, (removeDirectories fails message directories tree).1.node path = some node →
        tree.node path = some node) ∧
      (∀ path ∉ directories, (removeDirectories fails message directories tree).1.node path = tree.node path) ∧
      ((removeDirectories fails message directories tree).2 = none → ∀ path ∈ directories,
        (removeDirectories fails message directories tree).1.node path = none) := by
  induction directories with
  | nil => exact fun tree => ⟨fun _ _ found => found, fun _ _ => rfl, fun _ _ member => absurd member List.not_mem_nil⟩
  | cons directory rest ih =>
      intro tree
      unfold removeDirectories
      split
      · exact ⟨fun _ _ found => found, fun _ _ => rfl, fun done => absurd done (by simp)⟩
      split
      · exact ⟨fun _ _ found => found, fun _ _ => rfl, fun done => absurd done (by simp)⟩
      rename_i next removed
      obtain ⟨-, -, gone, others⟩ := FileTree.remove_eq_some removed
      obtain ⟨shrinks, outside, result⟩ := ih next
      have shrunk : ∀ path node, next.node path = some node → tree.node path = some node := by
        intro path node found
        by_cases same : directory = path
        · subst same
          rw [gone] at found
          cases found
        · exact (others path same).symm.trans found
      refine ⟨fun path node found => shrunk path node (shrinks path node found), fun path apart => ?_,
        fun done path member => ?_⟩
      · rw [List.mem_cons, not_or] at apart
        rw [outside path apart.2]
        exact others path (Ne.symm apart.1)
      · rcases List.mem_cons.mp member with rfl | member
        · by_contra present
          obtain ⟨node, found⟩ := Option.ne_none_iff_exists'.mp present
          have still := shrinks _ _ found
          rw [gone] at still
          cases still
        · exact result done path member

variable {walk : DirectoryWalk Content} {driveRoot : Bool}

theorem mem_longestFirst {paths : List RelativePath} {path : RelativePath} :
    path ∈ longestFirst paths ↔ path ∈ paths := (List.mergeSort_perm _ _).mem_iff

/-- The directories are removed only when there is nothing else below the root. -/
theorem removeEmptyDirectoryTree_spec {links : Links Content} {tree after : FileTree Name Content}
    {outcome : Option MergeError} (plain : ∀ path, tree.node path ≠ some .other)
    (run : removeEmptyDirectoryTree walk links fails driveRoot tree = (after, outcome)) :
    (∀ path node, after.node path = some node → tree.node path = some node) ∧
      (∀ path content, tree.node path = some (.file content) → after.node path = some (.file content)) ∧
      (outcome.isSome → after.node [] = tree.node []) ∧ (outcome = none → ∀ path, after.node path = none) := by
  have unchanged {error : MergeError} (same : (tree, some error) = (after, outcome)) :
      (∀ path node, after.node path = some node → tree.node path = some node) ∧
        (∀ path content, tree.node path = some (.file content) → after.node path = some (.file content)) ∧
        (outcome.isSome → after.node [] = tree.node []) ∧ (outcome = none → ∀ path, after.node path = none) := by
    cases same
    exact ⟨fun _ _ found => found, fun _ _ found => found, fun _ => rfl, fun done => absurd done (by simp)⟩
  unfold removeEmptyDirectoryTree at run
  dsimp only at run
  split at run
  · exact unchanged run
  split at run
  · rename_i gone
    cases run
    exact ⟨fun _ _ found => found, fun _ _ found => found, fun _ => rfl, fun _ => FileTree.node_eq_none_of_root gone⟩
  · exact unchanged run
  · exact unchanged run
  rename_i root
  split at run
  · exact unchanged run
  split at run
  · exact unchanged run
  split at run
  · exact unchanged run
  rename_i only
  have directory {path : RelativePath} {node : Node Content} (found : tree.node path = some node) :
      node = .directory := by
    by_cases top : path = []
    · subst top
      exact Option.some.inj (found.symm.trans root)
    · have fine := List.find?_eq_none.mp only path ((walk.complete tree path).mpr ⟨top, by rw [found]; rfl⟩)
      rw [status_of_plain plain, isReparsePoint_of_plain plain top, found] at fine
      exact Node.isDirectory_iff.mp (by simpa using fine)
  have files {path : RelativePath} {content : Content} {other : FileTree Name Content}
      (found : tree.node path = some (.file content)) : other.node path = some (.file content) := by
    cases directory found
  have spec := removeDirectories_spec fails "cannot remove empty restore directory: "
    (longestFirst (walk.list tree)) tree
  have outside : ([] : RelativePath) ∉ longestFirst (walk.list tree) := by
    rw [mem_longestFirst]
    exact fun member => ((walk.complete tree []).mp member).1 rfl
  split at run
  · rename_i emptied error removed
    cases run
    rw [removed] at spec
    exact ⟨spec.1, fun _ _ found => files found, fun _ => spec.2.1 [] outside, fun done => absurd done (by simp)⟩
  · rename_i emptied removed
    rw [removed] at spec
    have last := removeDirectories_spec fails "cannot remove empty restore root: " [[]] emptied
    rw [run] at last
    refine ⟨fun path node found => spec.1 path node (last.1 path node found), fun _ _ found => files found,
      fun thrown => ?_, fun done => FileTree.node_eq_none_of_root (last.2.2 done [] List.mem_cons_self)⟩
    -- the root is the only thing the last removal can take
    unfold removeDirectories at run
    split at run
    · cases run
      exact spec.2.1 [] outside
    split at run
    · cases run
      exact spec.2.1 [] outside
    · cases run
      cases thrown

/-! ## A whole merge -/

theorem DirectoryWalk.mem_directories {links : Links Content} {tree : FileTree Name Content} {path : RelativePath}
    (plain : ∀ path, tree.node path ≠ some .other) :
    path ∈ walk.directories links tree ↔ path ≠ [] ∧ tree.node path = some .directory := by
  rw [directories, List.mem_filter, status_of_plain plain, walk.complete, and_assoc, and_congr_right_iff]
  intro _
  cases tree.node path with
  | none => simp
  | some node => simp [Node.isDirectory_iff]

theorem DirectoryWalk.mem_files {links : Links Content} {tree : FileTree Name Content} {path : RelativePath}
    (plain : ∀ path, tree.node path ≠ some .other) :
    path ∈ walk.files links tree ↔ path ≠ [] ∧ ∃ node, tree.node path = some node ∧ node ≠ .directory := by
  rw [files, List.mem_filter, status_of_plain plain, walk.complete, and_assoc, and_congr_right_iff]
  intro _
  cases tree.node path with
  | none => simp
  | some node => simp [← Node.isDirectory_iff]

/-- The search of the staging tree lets directories and files pass. -/
theorem MergeLinks.Absent.clear (absent : links.Absent before) (root : before.staging.node [] = some .directory)
    (searched : (walk.list before.staging).findSome? (refusedEntry links.staging fails before.staging) = none) :
    links.Clear before where
  plain path other := by
    have below : path ≠ [] := by
      rintro rfl
      rw [root] at other
      cases other
    have passed := List.findSome?_eq_none_iff.mp searched path
      ((walk.complete _ _).mpr ⟨below, by rw [other]; rfl⟩)
    have special := absent.staging path other
    have found : links.staging.status before.staging path = some .other := by
      simp only [Links.status, other, seen_of_special special]
    simp [refusedEntry, isReparsePoint_eq_false below fun _ => special, found] at passed
  target := absent.target

theorem mergeEntries_spec [DecidableEq Content] (walk : DirectoryWalk Content) (fails : MergeStep → Bool)
    (driveRoot : Bool) (before : MergeTrees Content) (absent : links.Absent before)
    (top : before.staging.node [] = some .directory) (root : before.target.node [] = some .directory) :
    Progress before (mergeEntries walk links fails driveRoot before).1 ∧
      ((mergeEntries walk links fails driveRoot before).2.isSome →
        (mergeEntries walk links fails driveRoot before).1.staging.node [] = some .directory) ∧
      ((mergeEntries walk links fails driveRoot before).2 = none →
        (∀ path, (mergeEntries walk links fails driveRoot before).1.staging.node path = none) ∧
        ∀ path node, path ≠ [] → before.staging.node path = some node → node ≠ .other ∧
          (mergeEntries walk links fails driveRoot before).1.target.node path = some node) := by
  unfold mergeEntries
  split
  · exact ⟨Progress.refl before, fun _ => top, fun done => absurd done (by simp)⟩
  split
  · exact ⟨Progress.refl before, fun _ => top, fun done => absurd done (by simp)⟩
  rename_i searched
  have clear := absent.clear top searched
  have noDirectory : [] ∉ walk.directories links.staging before.staging :=
    fun member => ((walk.mem_directories clear.plain).mp member).1 rfl
  have noFile : [] ∉ walk.files links.staging before.staging :=
    fun member => ((walk.mem_files clear.plain).mp member).1 rfl
  obtain ⟨first, same, created⟩ := progress_mergeDirectories fails (walk.directories links.staging before.staging) before
    clear noDirectory (fun path member => ((walk.mem_directories clear.plain).mp member).2) root
  split
  · rename_i after error run
    rw [run] at first same
    exact ⟨first, fun _ => by rw [same]; exact top, fun done => absurd done (by simp)⟩
  rename_i after run
  rw [run] at first same created
  obtain ⟨second, rest, gone⟩ := progress_mergeFiles fails (walk.files links.staging before.staging) after
    (clear.progress first) noFile
  split
  · rename_i moved error merged
    rw [merged] at second rest
    refine ⟨first.trans second, fun _ => ?_, fun done => absurd done (by simp)⟩
    rw [rest [] noFile, same]
    exact top
  rename_i moved merged
  rw [merged] at second rest gone
  cases removed : removeEmptyDirectoryTree walk links.staging fails driveRoot moved.staging
  rename_i staging outcome
  obtain ⟨shrinks, files, thrown, returned⟩ :=
    removeEmptyDirectoryTree_spec ((clear.progress first).progress second).plain removed
  have third : Progress moved ⟨staging, moved.target⟩ := {
    kept := fun _ _ found => found
    staged := shrinks
    added := fun _ _ found => .inl found
    moved := fun path content found => .inl (files path content found) }
  have whole := (first.trans second).trans third
  refine ⟨whole, fun late => ?_, fun done => ⟨returned done, fun path node below found => ?_⟩⟩
  · rw [thrown late, rest [] noFile, same]
    exact top
  · cases node with
    | directory =>
        exact ⟨by simp, second.kept _ _ (created rfl path ((walk.mem_directories clear.plain).mpr ⟨below, found⟩))⟩
    | file content =>
        refine ⟨by simp, ?_⟩
        rcases whole.moved path content found with still | stored
        · rw [returned done path] at still
          cases still
        · exact stored
    | other => exact absurd found (clear.plain path)

theorem publishMergedTree_spec [DecidableEq Content] (walk : DirectoryWalk Content) (fails : MergeStep → Bool)
    (driveRoot : Bool) (before : MergeTrees Content) (absent : links.Absent before) :
    Progress before (publishMergedTree walk links fails driveRoot before).1 ∧
      ((publishMergedTree walk links fails driveRoot before).2.isSome →
        (publishMergedTree walk links fails driveRoot before).1.staging.node [] = before.staging.node []) ∧
      ((publishMergedTree walk links fails driveRoot before).2 = none →
        (∀ path, (publishMergedTree walk links fails driveRoot before).1.staging.node path = none) ∧
        before.staging.node [] = some .directory ∧
        ∀ path node, before.staging.node path = some node → node ≠ .other ∧
          (publishMergedTree walk links fails driveRoot before).1.target.node path = some node) := by
  unfold publishMergedTree
  dsimp only
  split
  · exact ⟨Progress.refl before, fun _ => rfl, fun done => absurd done (by simp)⟩
  rename_i safe
  have root : before.staging.node [] = some .directory := by
    rw [Bool.or_eq_true, not_or, Bool.or_eq_true, not_or] at safe
    obtain ⟨node, found, directory⟩ := Option.any_eq_true _ _ |>.mp (by simpa using safe.1.2)
    rw [found, Node.isDirectory_iff.mp directory]
  split
  · exact ⟨Progress.refl before, fun _ => rfl, fun done => absurd done (by simp)⟩
  split
  · exact ⟨Progress.refl before, fun _ => rfl, fun done => absurd done (by simp)⟩
  rename_i target made
  obtain ⟨first, top⟩ := progress_ensureDirectory root made
  have still : links.Absent ⟨before.staging, target⟩ := by
    refine ⟨absent.staging, fun path staged other => ?_, fun free => absurd (top.symm.trans free) (by simp)⟩
    by_cases here : [] = path
    · subst here
      rw [top] at other
      cases other
    · exact absent.target path staged (((FileTree.ensureDirectory_eq_some made).2.2 path here).symm.trans other)
  obtain ⟨second, thrown, returned⟩ := mergeEntries_spec walk fails driveRoot ⟨before.staging, target⟩ still root top
  refine ⟨first.trans second, fun late => (thrown late).trans root.symm, fun done => ?_⟩
  obtain ⟨gone, stored⟩ := returned done
  refine ⟨gone, root, fun path node found => ?_⟩
  by_cases here : path = []
  · subst here
    obtain rfl := Option.some.inj (root.symm.trans found)
    exact ⟨by simp, second.kept _ _ top⟩
  · exact stored path node here found

end SearchEngine.Archive
