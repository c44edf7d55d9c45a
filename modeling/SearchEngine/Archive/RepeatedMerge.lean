import SearchEngine.Archive.MergeProgress

/-!
# Repeated merges

Trees without a conflict stay without one however a merge is stopped, and a merge of such
trees goes through once no step fails.
-/

namespace SearchEngine.Archive

open SearchEngine.Lib

universe u

variable {Content : Type u} {before now later : MergeTrees Content} {walk : DirectoryWalk Content}
  {links : MergeLinks Content}

/-! ## Merges that meet no failing step -/

/-- Whatever the target has of the staging tree it has as the staging tree does. -/
structure Mergeable (links : MergeLinks Content) (trees : MergeTrees Content) : Prop where
  roots : links.staging.root = false ∧ links.target.root = false
  root : trees.staging.node [] = some .directory
  plain : ∀ path, trees.staging.node path ≠ some .other
  agrees : ∀ path node stored, trees.staging.node path = some node → trees.target.node path = some stored →
    stored = node

/-- No step fails. -/
def noStepFails : MergeStep → Bool := fun _ => false

theorem Mergeable.progress (mergeable : Mergeable links before) (progress : Progress before now)
    (root : now.staging.node [] = before.staging.node []) : Mergeable links now where
  roots := mergeable.roots
  root := root.trans mergeable.root
  plain path found := mergeable.plain path (progress.staged path _ found)
  agrees path node stored staged target := by
    have earlier := progress.staged path node staged
    rcases progress.added path stored target with old | new
    · exact mergeable.agrees path node stored earlier old
    · exact Option.some.inj (new.symm.trans earlier)

theorem Mergeable.absent (mergeable : Mergeable links before) (absent : links.Absent before)
    (progress : Progress before now) : links.Absent now where
  staging path other := absurd (progress.staged path _ other) (mergeable.plain path)
  target path present other := by
    obtain ⟨node, staged⟩ := Option.isSome_iff_exists.mp present
    rcases progress.added path _ other with old | new
    · exact absent.target path (by rw [progress.staged path node staged]; rfl) old
    · exact absurd new (mergeable.plain path)
  root _ := mergeable.roots.2

theorem Mergeable.clear (mergeable : Mergeable links before) (absent : links.Absent before) : links.Clear before :=
  ⟨mergeable.plain, absent.target⟩

/-- A directory of the staging tree can be created in the target. -/
theorem ensureDirectory_mergeable {path : RelativePath} (mergeable : Mergeable links before)
    (directory : before.staging.node path = some .directory) (parent : before.target.hasParent path = true) :
    ∃ target, before.target.ensureDirectory (failsToCreate noStepFails) path = some target := by
  unfold FileTree.ensureDirectory
  cases stored : before.target.node path with
  | none => exact FileTree.create_of_free stored parent
  | some node =>
      obtain rfl := mergeable.agrees path _ _ directory stored
      exact ⟨_, rfl⟩

theorem createDirectories_mergeable (rest : RelativePath) :
    ∀ (front : RelativePath) (before : MergeTrees Content), Mergeable links before →
      before.staging.node (front ++ rest) = some .directory → before.target.node front = some .directory →
        (before.target.createDirectories (failsToCreate noStepFails) front rest).2 = true := by
  induction rest with
  | nil => exact fun _ _ _ _ _ => rfl
  | cons name rest ih =>
      intro front before mergeable staged stored
      have split : front ++ name :: rest = (front ++ [name]) ++ rest := by rw [List.append_assoc]; rfl
      rw [split] at staged
      have directory : before.staging.node (front ++ [name]) = some .directory := by
        cases rest with
        | nil => rwa [List.append_nil] at staged
        | cons head tail => exact FileTree.node_above (by rw [staged]; rfl) (List.cons_ne_nil _ _)
      obtain ⟨target, made⟩ := ensureDirectory_mergeable mergeable directory (FileTree.hasParent_concat.mpr stored)
      obtain ⟨progress, there⟩ := progress_ensureDirectory directory made
      unfold FileTree.createDirectories
      rw [made]
      exact ih (front ++ [name]) ⟨before.staging, target⟩ (mergeable.progress progress rfl) staged there

theorem mergeDirectories_mergeable (directories : List RelativePath) : ∀ before : MergeTrees Content,
    Mergeable links before → links.Clear before → [] ∉ directories →
      (∀ path ∈ directories, before.staging.node path = some .directory) → before.target.node [] = some .directory →
        (mergeDirectories links noStepFails directories before).2 = none := by
  induction directories with
  | nil => exact fun _ _ _ _ _ _ => rfl
  | cons directory rest ih =>
      intro before mergeable clear below staged root
      rw [List.mem_cons, not_or] at below
      have here := staged directory List.mem_cons_self
      have present : (before.staging.node directory).isSome := by rw [here]; rfl
      have free : (before.target.node directory).any (!·.isDirectory) = false := by
        cases stored : before.target.node directory with
        | none => rfl
        | some node =>
            obtain rfl := mergeable.agrees directory _ _ here stored
            rfl
      obtain ⟨progress, -⟩ := progress_createDirectories noStepFails directory [] before here root
      have made := createDirectories_mergeable directory [] before mergeable here root
      unfold mergeDirectories
      simp only [clear.status present, clear.isReparsePoint present (Ne.symm below.1), Bool.or_false]
      rw [if_neg (by simp [noStepFails]), if_neg (by simp [free]), createTargetDirectories_eq clear present free]
      split
      · rename_i target run
        rw [run] at made
        cases made
      · rename_i target run
        rw [run] at progress
        exact ih ⟨before.staging, target⟩ (mergeable.progress progress rfl) (clear.progress progress) below.2
          (fun path member => staged path (List.mem_cons_of_mem _ member)) (progress.kept _ _ root)

/-- A staged file whose directory the target has leaves the staging tree. -/
theorem mergeFile_mergeable [DecidableEq Content] {file : RelativePath} {content : Content}
    (mergeable : Mergeable links before) (clear : links.Clear before) (below : file ≠ [])
    (staged : before.staging.node file = some (.file content)) (parent : before.target.hasParent file = true) :
    (mergeFile links noStepFails before file).2 = none := by
  have present : (before.staging.node file).isSome := by rw [staged]; rfl
  obtain ⟨staging, removed⟩ := FileTree.remove_of_leaf (FileTree.isEmpty_of_file staged) present
  unfold mergeFile
  rw [if_neg (by simp [noStepFails])]
  simp only [staged, clear.status present, clear.isReparsePoint present below, status_of_plain clear.plain]
  cases stored : before.target.node file with
  | none =>
      obtain ⟨target, created⟩ : ∃ target, before.target.create file (.file content) = some target :=
        FileTree.create_of_free stored parent
      simp [renameFile, putStaged_of_free clear present stored, noStepFails, created, removed]
  | some node =>
      obtain rfl := mergeable.agrees file _ _ staged stored
      simp [dropDuplicate, noStepFails, removed]

theorem mergeFiles_mergeable [DecidableEq Content] (files : List RelativePath) : ∀ before : MergeTrees Content,
    Mergeable links before → links.Clear before → files.Nodup → (∀ file ∈ files, ∃ content, before.staging.node file = some (.file content)) →
      (∀ path, before.staging.node path = some .directory → before.target.node path = some .directory) →
        (mergeFiles links noStepFails files before).2 = none := by
  induction files with
  | nil => exact fun _ _ _ _ _ _ => rfl
  | cons file rest ih =>
      intro before mergeable clear distinct staged directories
      obtain ⟨content, here⟩ := staged file List.mem_cons_self
      have parent : before.target.hasParent file = true := by
        rcases List.eq_nil_or_concat file with rfl | ⟨front, name, rfl⟩
        · rfl
        · rw [List.concat_eq_append] at here ⊢
          exact FileTree.hasParent_concat.mpr (directories front (FileTree.node_parent (by rw [here]; rfl)))
      have notRoot : file ≠ [] := by
        rintro rfl
        rw [mergeable.root] at here
        cases here
      have fine := mergeFile_mergeable mergeable clear notRoot here parent
      unfold mergeFiles
      cases run : mergeFile links noStepFails before file
      rename_i after outcome
      rw [run] at fine
      obtain rfl : outcome = none := fine
      rcases mergeFile_cases clear notRoot run with ⟨-, thrown⟩ | ⟨-, progress, -, others⟩
      · cases thrown
      obtain ⟨outside, distinct⟩ := List.nodup_cons.mp distinct
      refine ih after (mergeable.progress progress (others [] notRoot)) (clear.progress progress) distinct
        (fun other member => ?_)
        (fun path found => progress.kept _ _ (directories path (progress.staged _ _ found)))
      obtain ⟨content, found⟩ := staged other (List.mem_cons_of_mem _ member)
      refine ⟨content, (others other ?_).trans found⟩
      rintro rfl
      exact outside member

/-! ## Removing directories from the longest path on -/

theorem textLength_concat (path : RelativePath) (name : Name) :
    textLength path < textLength (path ++ [name]) := by
  simp only [textLength, List.map_append, List.map_cons, List.map_nil, List.sum_append, List.sum_cons, List.sum_nil]
  omega

theorem pairwise_longestFirst (paths : List RelativePath) :
    (longestFirst paths).Pairwise fun left right => textLength right ≤ textLength left := by
  have sorted := @List.pairwise_mergeSort _ (fun left right => decide (textLength right ≤ textLength left))
    (fun _ _ _ first second => by
      simp only [decide_eq_true_eq] at *
      exact Nat.le_trans second first)
    (fun left right => by simpa using Nat.le_total (textLength right) (textLength left)) paths
  exact sorted.imp fun order => by simpa using order

/-- With nothing but the listed directories below the root, each is empty when its turn comes. -/
theorem removeDirectories_longestFirst (message : String) (directories : List RelativePath) :
    ∀ tree : FileTree Name Content, directories.Nodup →
      directories.Pairwise (fun left right => textLength right ≤ textLength left) →
      (∀ path, path ≠ [] → ((tree.node path).isSome ↔ path ∈ directories)) → [] ∉ directories →
        (removeDirectories noStepFails message directories tree).2 = none := by
  induction directories with
  | nil => exact fun _ _ _ _ _ => rfl
  | cons directory rest ih =>
      intro tree distinct sorted all root
      rw [List.mem_cons, not_or] at root
      obtain ⟨outside, distinct⟩ := List.nodup_cons.mp distinct
      obtain ⟨longest, sorted⟩ := List.pairwise_cons.mp sorted
      have empty : tree.isEmpty directory = true := by
        rw [FileTree.isEmpty_iff]
        intro name
        by_contra present
        have longer := textLength_concat directory name
        have listed := (all (directory ++ [name]) (by simp)).mp (Option.isSome_iff_ne_none.mpr present)
        rcases List.mem_cons.mp listed with same | later
        · rw [same] at longer
          omega
        · have shorter := longest _ later
          omega
      obtain ⟨next, removed⟩ := FileTree.remove_of_leaf empty
        ((all directory (Ne.symm root.1)).mpr List.mem_cons_self)
      obtain ⟨-, -, gone, others⟩ := FileTree.remove_eq_some removed
      unfold removeDirectories
      rw [if_neg (by simp [noStepFails])]
      simp only [removed]
      refine ih next distinct sorted (fun path below => ?_) root.2
      by_cases same : directory = path
      · subst same
        rw [gone]
        simpa using outside
      · rw [others path same, all path below, List.mem_cons]
        simp [Ne.symm same]

theorem removeEmptyDirectoryTree_mergeable (walk : DirectoryWalk Content) {links : Links Content}
    {tree : FileTree Name Content} (noLink : links.root = false) (root : tree.node [] = some .directory)
    (only : ∀ path node, tree.node path = some node → node = .directory) :
    (removeEmptyDirectoryTree walk links noStepFails false tree).2 = none := by
  have plain : ∀ path, tree.node path ≠ some .other := by
    intro path other
    cases only path _ other
  have free : (walk.list tree).find? (fun path => links.isReparsePoint tree path (noStepFails (.stagingAttributes path)) ||
      !(links.status tree path).any Node.isDirectory) = none := by
    rw [List.find?_eq_none]
    intro path member
    obtain ⟨below, present⟩ := (walk.complete tree path).mp member
    obtain ⟨node, found⟩ := Option.isSome_iff_exists.mp present
    rw [isReparsePoint_of_plain plain below, status_of_plain plain, found, only path node found]
    simp [Node.isDirectory]
  have outside : ([] : RelativePath) ∉ longestFirst (walk.list tree) := by
    rw [mem_longestFirst]
    exact fun member => ((walk.complete tree []).mp member).1 rfl
  have done := removeDirectories_longestFirst "cannot remove empty restore directory: "
    (longestFirst (walk.list tree)) tree ((List.mergeSort_perm _ _).nodup_iff.mpr (walk.nodup tree))
    (pairwise_longestFirst _) (fun path below => by simp [mem_longestFirst, walk.complete, below]) outside
  have spec := removeDirectories_spec noStepFails "cannot remove empty restore directory: "
    (longestFirst (walk.list tree)) tree
  unfold removeEmptyDirectoryTree
  rw [if_neg (by simp [noStepFails])]
  simp only [root, free]
  rw [if_neg (by simp [Links.isReparsePoint, noLink]), if_neg (by simp [noStepFails])]
  cases run : removeDirectories noStepFails "cannot remove empty restore directory: " (longestFirst (walk.list tree)) tree
  rename_i after outcome
  rw [run] at done spec
  obtain rfl : outcome = none := done
  -- nothing but the root is left
  have empty : after.isEmpty [] = true := by
    rw [FileTree.isEmpty_iff]
    intro name
    by_contra present
    obtain ⟨node, found⟩ := Option.ne_none_iff_exists'.mp present
    have listed : [] ++ [name] ∈ longestFirst (walk.list tree) := by
      rw [mem_longestFirst, walk.complete]
      exact ⟨by simp, by rw [spec.1 _ _ found]; rfl⟩
    exact present (spec.2.2 rfl _ listed)
  obtain ⟨last, removed⟩ := FileTree.remove_of_leaf empty (by rw [spec.2.1 [] outside, root]; rfl)
  simp [removeDirectories, noStepFails, removed]

/-- A merge of the files that meets every directory in the target. -/
theorem mergeFiles_listed [DecidableEq Content] (walk : DirectoryWalk Content) {after : MergeTrees Content}
    (ready : Mergeable links after) (clear : links.Clear after)
    (staged : ∀ path, after.staging.node path = before.staging.node path)
    (created : ∀ path ∈ walk.directories links.staging before.staging, after.target.node path = some .directory)
    (top : after.target.node [] = some .directory) :
    (mergeFiles links noStepFails (walk.files links.staging before.staging) after).2 = none := by
  have plain : ∀ path, before.staging.node path ≠ some .other := fun path other =>
    ready.plain path ((staged path).trans other)
  refine mergeFiles_mergeable (walk.files links.staging before.staging) after ready clear ((walk.nodup _).filter _)
    (fun file member => ?_) (fun path found => ?_)
  · obtain ⟨-, node, found, kind⟩ := (walk.mem_files plain).mp member
    rw [← staged] at found
    cases node with
    | directory => exact absurd rfl kind
    | file content => exact ⟨content, found⟩
    | other => exact absurd found (ready.plain file)
  · by_cases here : path = []
    · subst here
      exact top
    · exact created path ((walk.mem_directories plain).mpr ⟨here, (staged path).symm.trans found⟩)

/-- Directories and files pass the search of the staging tree. -/
theorem refusedEntry_of_plain {path : RelativePath} (plain : ∀ path, before.staging.node path ≠ some .other)
    (listed : path ∈ walk.list before.staging) :
    refusedEntry links.staging noStepFails before.staging path = none := by
  obtain ⟨below, present⟩ := (walk.complete before.staging path).mp listed
  obtain ⟨node, found⟩ := Option.isSome_iff_exists.mp present
  unfold refusedEntry
  rw [isReparsePoint_of_plain plain below, if_neg (by simp), status_of_plain plain, found]
  cases node with
  | directory => rfl
  | file content => rfl
  | other => exact absurd found (plain path)

theorem mergeEntries_mergeable [DecidableEq Content] (mergeable : Mergeable links before) (clear : links.Clear before)
    (top : before.target.node [] = some .directory) : (mergeEntries walk links noStepFails false before).2 = none := by
  have searched :
      (walk.list before.staging).findSome? (refusedEntry links.staging noStepFails before.staging) = none :=
    List.findSome?_eq_none_iff.mpr fun path listed => refusedEntry_of_plain mergeable.plain listed
  have listed : ∀ path ∈ walk.directories links.staging before.staging, before.staging.node path = some .directory :=
    fun path member => ((walk.mem_directories mergeable.plain).mp member).2
  have noDirectory : [] ∉ walk.directories links.staging before.staging :=
    fun member => ((walk.mem_directories mergeable.plain).mp member).1 rfl
  have noFile : [] ∉ walk.files links.staging before.staging :=
    fun member => ((walk.mem_files mergeable.plain).mp member).1 rfl
  unfold mergeEntries
  rw [if_neg (by simp [noStepFails])]
  simp only [searched]
  obtain ⟨first, same, created⟩ := progress_mergeDirectories noStepFails _ before clear noDirectory listed top
  have fine := mergeDirectories_mergeable _ before mergeable clear noDirectory listed top
  cases run : mergeDirectories links noStepFails (walk.directories links.staging before.staging) before
  rename_i after outcome
  rw [run] at first same created fine
  obtain rfl : outcome = none := fine
  have staged : ∀ path, after.staging.node path = before.staging.node path := fun path => by rw [same]
  have merging := mergeFiles_listed walk (mergeable.progress first (staged [])) (clear.progress first) staged
    (created rfl) (first.kept _ _ top)
  obtain ⟨second, outside, gone⟩ := progress_mergeFiles noStepFails (walk.files links.staging before.staging) after
    (clear.progress first) noFile
  cases merged : mergeFiles links noStepFails (walk.files links.staging before.staging) after
  rename_i moved outcome
  rw [merged] at second outside gone merging
  obtain rfl : outcome = none := merging
  have root : moved.staging.node [] = some .directory := by
    rw [outside [] noFile, staged, mergeable.root]
  have emptied := removeEmptyDirectoryTree_mergeable walk mergeable.roots.1 root fun path node found => ?_
  · dsimp only
    rw [merged]
    exact emptied
  · -- only the files were staged as something else, and they are gone
    have earlier : before.staging.node path = some node := (staged path).symm.trans (second.staged _ _ found)
    by_contra other
    have below : path ≠ [] := by
      rintro rfl
      rw [mergeable.root] at earlier
      exact other (Option.some.inj earlier).symm
    rw [gone rfl path ((walk.mem_files mergeable.plain).mpr ⟨below, node, earlier, other⟩)] at found
    cases found

theorem publishMergedTree_mergeable [DecidableEq Content] (walk : DirectoryWalk Content)
    (mergeable : Mergeable links before) (absent : links.Absent before) :
    (publishMergedTree walk links noStepFails false before).2 = none := by
  have clear := mergeable.clear absent
  have present : (before.staging.node []).isSome := by rw [mergeable.root]; rfl
  have safeTarget : (before.target.node []).any (!·.isDirectory) = false := by
    cases stored : before.target.node [] with
    | none => rfl
    | some node =>
        obtain rfl := mergeable.agrees [] _ _ mergeable.root stored
        rfl
  obtain ⟨target, made⟩ := ensureDirectory_mergeable mergeable mergeable.root rfl
  obtain ⟨first, top⟩ := progress_ensureDirectory mergeable.root made
  unfold publishMergedTree
  simp only [clear.status present, Links.isReparsePoint, if_true, mergeable.roots.1, mergeable.roots.2, Bool.and_false,
    Bool.or_false]
  rw [if_neg (by simp [noStepFails, mergeable.root, Node.isDirectory]), if_neg (by simp [noStepFails, safeTarget])]
  simp only [made]
  exact mergeEntries_mergeable (mergeable.progress first rfl) (clear.progress first) top

/-- The roots of a merge that returns are no reparse points. -/
theorem roots_of_returns [DecidableEq Content] (absent : links.Absent before)
    (done : (publishMergedTree walk links noStepFails false before).2 = none) :
    links.staging.root = false ∧ links.target.root = false := by
  unfold publishMergedTree at done
  simp only [Links.isReparsePoint, if_true, noStepFails, Bool.not_false, Bool.true_and, Bool.false_or] at done
  split at done
  · cases done
  rename_i safe
  rw [Bool.or_eq_true, not_or] at safe
  refine ⟨Bool.eq_false_iff.mpr safe.2, ?_⟩
  split at done
  · cases done
  rename_i target
  cases stored : before.target.node [] with
  | none => exact absent.root stored
  | some node =>
      have present : (before.staging.node []).isSome := by
        obtain ⟨node, found, -⟩ := (Option.any_eq_true _ _).mp (by simpa using safe.1)
        rw [found]
        rfl
      have found : links.target.status before.target [] = some node :=
        (status_eq_node (isBeyond_eq_false fun front above =>
          absent.target front (staged_above present (above.trans (List.dropLast_prefix _))))
          (absent.target [] present)).trans stored
      rw [found] at target
      cases root : links.target.root with
      | false => rfl
      | true => simp [root] at target

/-- Nothing but a failing step and a conflict stops a merge. -/
theorem publishMergedTree_returns_iff [DecidableEq Content] (absent : links.Absent before) :
    (publishMergedTree walk links noStepFails false before).2 = none ↔ Mergeable links before := by
  constructor
  · intro done
    obtain ⟨progress, -, returned⟩ := publishMergedTree_spec walk noStepFails false before absent
    obtain ⟨-, root, stored⟩ := returned done
    constructor
    · exact roots_of_returns absent done
    · exact root
    · exact fun path other => (stored path _ other).1 rfl
    · intro path node old staged target
      exact Option.some.inj ((progress.kept _ _ target).symm.trans (stored path node staged).2)
  · exact fun mergeable => publishMergedTree_mergeable walk mergeable absent

/-! ## Repeating a merge -/

/-- Call `publishMergedTree` again after every throw; the last call meets no failing step. -/
def repeatMerge [DecidableEq Content] (walk : DirectoryWalk Content) (links : MergeLinks Content) :
    List (MergeStep → Bool) → MergeTrees Content → MergeTrees Content × Option MergeError
  | [], trees => publishMergedTree walk links noStepFails false trees
  | fails :: rest, trees =>
      match publishMergedTree walk links fails false trees with
      | (after, none) => (after, none)
      | (after, some _) => repeatMerge walk links rest after

/-- The files of both trees, and nothing staged any more. -/
structure Merged (before after : MergeTrees Content) : Prop where
  files : ∀ path content, after.target.node path = some (.file content) ↔
    before.target.node path = some (.file content) ∨ before.staging.node path = some (.file content)
  gone : ∀ path, after.staging.node path = none

theorem Progress.merged (progress : Progress before now) (gone : ∀ path, now.staging.node path = none) :
    Merged before now where
  files path content := by
    constructor
    · exact fun stored => progress.added path _ stored
    · rintro (target | staging)
      · exact progress.kept path _ target
      · rcases progress.moved path content staging with still | stored
        · rw [gone] at still
          cases still
        · exact stored
  gone := gone

theorem Progress.merged_trans (progress : Progress before now) (merged : Merged now later) : Merged before later where
  files path content := by
    rw [merged.files]
    constructor
    · rintro (target | staging)
      · exact progress.added path _ target
      · exact .inr (progress.staged path _ staging)
    · rintro (target | staging)
      · exact .inl (progress.kept path _ target)
      · exact (progress.moved path content staging).symm
  gone := merged.gone

theorem repeatMerge_merged [DecidableEq Content] (attempts : List (MergeStep → Bool)) :
    ∀ before : MergeTrees Content, Mergeable links before → links.Absent before →
      (repeatMerge walk links attempts before).2 = none ∧ Merged before (repeatMerge walk links attempts before).1 := by
  induction attempts with
  | nil =>
      intro before mergeable absent
      have done := publishMergedTree_mergeable walk mergeable absent
      obtain ⟨progress, -, returned⟩ := publishMergedTree_spec walk noStepFails false before absent
      exact ⟨done, progress.merged (returned done).1⟩
  | cons fails rest ih =>
      intro before mergeable absent
      obtain ⟨progress, thrown, returned⟩ := publishMergedTree_spec walk fails false before absent
      unfold repeatMerge
      split
      · rename_i after run
        rw [run] at progress returned
        exact ⟨rfl, progress.merged (returned rfl).1⟩
      · rename_i after error run
        rw [run] at progress thrown
        have again := ih after (mergeable.progress progress (thrown rfl)) (mergeable.absent absent progress)
        exact ⟨again.1, progress.merged_trans again.2⟩

/-- Without reparse points a merge leaves every file of the target alone and loses none of the
staged ones. When it returns, the files are those of both trees and the staging tree is gone.
Without a conflict it goes through as soon as no step fails, however often it was stopped before. -/
theorem publishMergedTree_merges [DecidableEq Content] (walk : DirectoryWalk Content) (links : MergeLinks Content)
    (fails : MergeStep → Bool) (driveRoot : Bool) (before : MergeTrees Content) (absent : links.Absent before) :
    (∀ path content, before.target.node path = some (.file content) →
      (publishMergedTree walk links fails driveRoot before).1.target.node path = some (.file content)) ∧
    ((publishMergedTree walk links fails driveRoot before).2 = none →
      Merged before (publishMergedTree walk links fails driveRoot before).1) ∧
    ((publishMergedTree walk links fails driveRoot before).2 ≠ none →
      (∀ path content, before.staging.node path = some (.file content) →
        (publishMergedTree walk links fails driveRoot before).1.staging.node path = some (.file content) ∨
        (publishMergedTree walk links fails driveRoot before).1.target.node path = some (.file content)) ∧
      (Mergeable links before → Mergeable links (publishMergedTree walk links fails driveRoot before).1)) ∧
    ((publishMergedTree walk links noStepFails false before).2 = none ↔ Mergeable links before) ∧
    (Mergeable links before → ∀ attempts,
      (repeatMerge walk links attempts before).2 = none ∧ Merged before (repeatMerge walk links attempts before).1) := by
  obtain ⟨progress, thrown, returned⟩ := publishMergedTree_spec walk fails driveRoot before absent
  refine ⟨fun path content stored => progress.kept path _ stored, fun done => progress.merged (returned done).1,
    fun stopped => ⟨progress.moved, fun mergeable => ?_⟩, publishMergedTree_returns_iff absent,
    fun mergeable attempts => repeatMerge_merged attempts before mergeable absent⟩
  exact mergeable.progress progress (thrown (Option.isSome_iff_ne_none.mpr stopped))

/-! ## Merges of small trees -/

/-- The places of a tree in their order. -/
def orderedWalk : DirectoryWalk Content where
  list tree := tree.below []
  nodup _ := FileTree.nodup_below []
  complete _ _ := FileTree.mem_below

/-- Two trees without reparse points. -/
def noLinks : MergeLinks Content :=
  let none : Links Content := ⟨false, fun _ => .special, fun _ => none⟩
  ⟨none, none⟩

/-- A new file in a new directory and a file that the target has as well. -/
def restoredTrees : MergeTrees Nat where
  staging := .ofPlaces [([], .directory), (["year".toList], .directory), (["year".toList, "scan".toList], .file 1),
    (["index".toList], .file 2)]
  target := .ofPlaces [([], .directory), (["index".toList], .file 2), (["pipe".toList], .other)]

/-- The new file cannot be moved. -/
def cannotMove : MergeStep → Bool := (· == .rename ["year".toList, "scan".toList])

theorem publishMergedTree_merges_stopped :
    (publishMergedTree orderedWalk noLinks cannotMove false restoredTrees).2 =
        some ⟨"cannot publish restored file: ", ["year".toList, "scan".toList]⟩ ∧
      (publishMergedTree orderedWalk noLinks cannotMove false restoredTrees).1.target.node ["index".toList] =
        some (.file 2) ∧
      (repeatMerge orderedWalk noLinks [cannotMove] restoredTrees).2 = none ∧
      Merged restoredTrees (repeatMerge orderedWalk noLinks [cannotMove] restoredTrees).1 := by
  obtain ⟨kept, -, -, returns, again⟩ := publishMergedTree_merges orderedWalk noLinks cannotMove false restoredTrees
    ⟨fun _ _ => rfl, fun _ _ _ => rfl, fun _ => rfl⟩
  refine ⟨by decide +kernel, kept _ _ (by decide +kernel), again (returns.mp (by decide +kernel)) [cannotMove]⟩

/-- A link without a file in the target, where a file is staged. -/
def danglingTrees : MergeTrees Nat where
  staging := .ofPlaces [([], .directory), (["scan".toList], .file 1)]
  target := .ofPlaces [([], .directory), (["scan".toList], .other)]

def danglingLink : MergeLinks Nat where
  staging := ⟨false, fun _ => .special, fun _ => none⟩
  target := ⟨false, fun _ => .fileLink none, fun _ => none⟩

/-- A link to a directory in the target, where a directory is staged. -/
def linkedTrees : MergeTrees Nat where
  staging := .ofPlaces [([], .directory), (["year".toList], .directory), (["year".toList, "scan".toList], .file 1)]
  target := .ofPlaces [([], .directory), (["year".toList], .other)]

def directoryLink : MergeLinks Nat where
  staging := ⟨false, fun _ => .special, fun _ => none⟩
  target := ⟨false, fun _ => .directoryLink true, fun _ => none⟩

/-- The attributes of the link cannot be read. -/
def hidesAttributes : MergeStep → Bool := (· == .targetAttributes ["year".toList])

/-- With reparse points in the target a merge that returns may have replaced one of them, or
moved a staged file out of the target through another. -/
theorem publishMergedTree_follows_links :
    (publishMergedTree orderedWalk danglingLink noStepFails false danglingTrees).2 = none ∧
      danglingTrees.target.node ["scan".toList] = some .other ∧
      (publishMergedTree orderedWalk danglingLink noStepFails false danglingTrees).1.target.node ["scan".toList] =
        some (.file 1) ∧
      (publishMergedTree orderedWalk directoryLink hidesAttributes false linkedTrees).2 = none ∧
      (publishMergedTree orderedWalk directoryLink hidesAttributes false linkedTrees).1.target.node
        ["year".toList, "scan".toList] = none := by
  decide +kernel

end SearchEngine.Archive
