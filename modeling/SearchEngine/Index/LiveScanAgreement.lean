import SearchEngine.Files.IndexedTree
import SearchEngine.Index.LiveCatalog

/-!
# Live events and full scans

The trees below the index roots change, the watchers report it, and the index works
off one event after the other. Live events and the scanner agree on what is indexed,
and a scan after the events reports nothing, as long as the roots are spelled the way
the watchers put them together, no file is reached from two of them, every change is
reported, and no accepted file is too small, out of the scanner's reach, or, where
the rows decide, without a word.
-/

namespace SearchEngine.Index

open SearchEngine.Lib
open SearchEngine.Files (ScanRules IndexSettings CaseTable FileName Tree TreeFile Place RootScan
  scanDirectory scanDirectories iteratedPath reportedPath watchedRoot shouldAcceptFileEvent IndexedLive
  IndexedByScan TreeAgrees minimumSize lists walk)
open SearchEngine.Watcher (FileEvent commandOf)

/-- The metadata that `last_write_time` and `file_size` give. -/
def metadataOf (file : TreeFile) : DocumentMetadata := ⟨file.mtimeTicks, file.size⟩

/-- The trees below the index roots; a path denotes one file. -/
structure FileTrees (settings : IndexSettings) where
  tree : Path → Tree
  denotes : ∀ root ∈ settings.indexRoots, ∀ other ∈ settings.indexRoots,
    ∀ place ∈ (tree root).places, ∀ twin ∈ (tree other).places,
      iteratedPath root place.names = iteratedPath other twin.names → place.file = twin.file

namespace FileTrees

variable {settings : IndexSettings} (trees : FileTrees settings) (rules : ScanRules)

/-- The regular file at these names below a root. -/
def fileAt (root : Path) (names : List FileName) : Option TreeFile :=
  (((trees.tree root).places.find? fun place => place.names = names).map Place.file).filter
    TreeFile.regular

/-- What a scan reads of a path. -/
def stat : Stat := fun path =>
  settings.indexRoots.findSome? fun root =>
    ((trees.tree root).places.find? fun place => iteratedPath root place.names = path).map
      fun place => metadataOf place.file

/-- What the scanner lists. -/
def scanned : List Path :=
  scanDirectories rules (settings.indexRoots.map fun root => ⟨root, some ((trees.tree root).listing root)⟩)

/-- The document a scan takes a path for. -/
def expected (path : Path) : Option DocumentMetadata :=
  if (trees.scanned rules).contains path then trees.stat path else none

theorem expected_eq (path : Path) :
    trees.expected rules path = if path ∈ trees.scanned rules then trees.stat path else none := by
  simp only [expected, List.contains_iff_mem]

/-- The scanner reaches every accepted file, and takes its size. -/
def Indexable : Prop :=
  ∀ root ∈ settings.indexRoots, ∀ place ∈ (trees.tree root).places, IndexedLive rules .added root place →
    place.reached = true ∧ minimumSize ≤ place.file.size

/-- Every accepted file can be read and has a word. -/
def Readable (oem : OemTable) : Prop :=
  ∀ root ∈ settings.indexRoots, ∀ place ∈ (trees.tree root).places, IndexedLive rules .added root place →
    (place.file.content.map (batchList oem)).any (!·.isEmpty) = true

/-- No file is reached twice. -/
def Apart : Prop :=
  (settings.indexRoots.flatMap fun root =>
    (trees.tree root).places.map fun place => place.file.entry).Nodup

instance : Decidable (trees.Indexable rules) :=
  inferInstanceAs (Decidable (∀ root ∈ settings.indexRoots, ∀ place ∈ (trees.tree root).places, _ → _))

instance (oem : OemTable) : Decidable (trees.Readable rules oem) :=
  inferInstanceAs (Decidable (∀ root ∈ settings.indexRoots, ∀ place ∈ (trees.tree root).places, _ → _))

instance : Decidable trees.Apart := inferInstanceAs (Decidable (List.Nodup _))

/-- The path names the file, for the scanner or for a watcher. -/
def Names (path : Path) (entry : Nat) : Prop :=
  ∃ root ∈ settings.indexRoots, ∃ place ∈ (trees.tree root).places, place.file.entry = entry ∧
    (path = iteratedPath root place.names ∨ path = reportedPath root place.names)

end FileTrees

/-- An event of a watcher about an entry below its root. -/
structure LiveEvent (settings : IndexSettings) where
  evt : FileEvent
  root : Path
  names : List FileName
  watched : root ∈ settings.indexRoots
  below : names ≠ []

namespace LiveEvent

variable {settings : IndexSettings}

def path (event : LiveEvent settings) : Path := reportedPath event.root event.names

/-- The event says that the entry is gone. -/
def Removes (event : LiveEvent settings) : Prop := commandOf event.evt = .removed

instance (event : LiveEvent settings) : Decidable event.Removes := inferInstanceAs (Decidable (_ = _))

/-- `pushFileEvent`, `flushPending` and the command, worked off by an idle index. -/
def handle (oem : OemTable) (rules : ScanRules) (order : IterationOrder) (trees : FileTrees settings)
    (s : System) (event : LiveEvent settings) : Option System :=
  if shouldAcceptFileEvent rules event.evt event.path then
    if event.Removes then s.deleteNow oem order event.path
    else s.updateNow oem order event.path
      ((trees.fileAt event.root event.names).map fun file => (metadataOf file, file.content))
  else some s

end LiveEvent

/-- Every changed file is reported as it is now, and what is reported as gone is not there. -/
structure Reports {settings : IndexSettings} (before after : FileTrees settings)
    (events : List (LiveEvent settings)) : Prop where
  changed : ∀ root ∈ settings.indexRoots,
    ∀ place ∈ (before.tree root).places ++ (after.tree root).places,
      before.fileAt root place.names ≠ after.fileAt root place.names →
        ∃ event ∈ events, event.root = root ∧ event.names = place.names ∧
          (event.Removes ↔ after.fileAt root place.names = none)
  gone : ∀ event ∈ events, event.Removes → ∀ root ∈ settings.indexRoots,
    ∀ place ∈ (after.tree root).places, place.file.regular = true →
      iteratedPath root place.names ≠ event.path

/-! ## The system -/

/-- The index and the trees below its roots. -/
structure LiveIndex (settings : IndexSettings) where
  trees : FileTrees settings
  system : System

/-- Files change, and the watchers report events. -/
structure Change (settings : IndexSettings) where
  after : FileTrees settings
  events : List (LiveEvent settings)
  order : IterationOrder

namespace LiveIndex

variable {settings : IndexSettings}

/-- The files change, and the events are worked off one after the other. -/
def step (oem : OemTable) (rules : ScanRules) (s : LiveIndex settings) (change : Change settings) :
    Option (LiveIndex settings) :=
  (change.events.foldlM (LiveEvent.handle oem rules change.order change.after) s.system).map
    fun system => ⟨change.after, system⟩

/-- The machine. -/
def machine (oem : OemTable) (rules : ScanRules) : Machine (LiveIndex settings) (Change settings) :=
  ⟨step oem rules⟩

/-- Live events and scans agree: on every tree, on what a scan reports now, and on one number
for every file. -/
structure Agrees (rules : ScanRules) (s : LiveIndex settings) : Prop where
  trees : ∀ root ∈ settings.indexRoots, TreeAgrees rules root (s.trees.tree root)
  scan : (s.system.catalog.scan s.system.db s.trees.stat (s.trees.scanned rules)).2 = some ⟨[], [], []⟩
  single : ∀ entry left right, s.trees.Names left entry → s.trees.Names right entry →
    ∀ leftRecord rightRecord, s.system.catalog.findByPath s.system.db left = some leftRecord →
      s.system.catalog.findByPath s.system.db right = some rightRecord → leftRecord.id = rightRecord.id

/-- The condition on a change. -/
structure Followed (oem : OemTable) (rules : ScanRules) (s : LiveIndex settings)
    (change : Change settings) : Prop where
  reports : Reports s.trees change.after change.events
  indexable : change.after.Indexable rules
  readable : s.system.catalog.readsRows = true → change.after.Readable rules oem
  apart : change.after.Apart

end LiveIndex

/-! ## Trees -/

namespace FileTrees

variable {settings : IndexSettings} {trees : FileTrees settings} {table : CaseTable}

theorem fileAt_eq_some_iff {root : Path} (member : root ∈ settings.indexRoots) {names : List FileName}
    {file : TreeFile} :
    trees.fileAt root names = some file ↔
      file.regular = true ∧ ∃ place ∈ (trees.tree root).places, place.names = names ∧ place.file = file := by
  rw [fileAt, Option.filter_eq_some_iff, Option.map_eq_some_iff, and_comm]
  refine and_congr_right fun _ => ?_
  constructor
  · rintro ⟨place, found, rfl⟩
    exact ⟨place, List.mem_of_find?_eq_some found, by simpa using List.find?_some found, rfl⟩
  · rintro ⟨place, here, rfl, rfl⟩
    have present : ((trees.tree root).places.find? fun other => other.names = place.names).isSome := by
      rw [List.find?_isSome]
      exact ⟨place, here, by simp⟩
    obtain ⟨first, found⟩ := Option.isSome_iff_exists.mp present
    have same : first.names = place.names := by simpa using List.find?_some found
    refine ⟨first, found, ?_⟩
    exact trees.denotes root member root member first (List.mem_of_find?_eq_some found) place here
      (by rw [same])

theorem stat_of_place {root : Path} (member : root ∈ settings.indexRoots) {place : Place}
    (here : place ∈ (trees.tree root).places) :
    trees.stat (iteratedPath root place.names) = some (metadataOf place.file) := by
  have present : (trees.stat (iteratedPath root place.names)).isSome := by
    rw [stat, List.findSome?_isSome_iff]
    refine ⟨root, member, ?_⟩
    rw [Option.isSome_map, List.find?_isSome]
    exact ⟨place, here, by simp⟩
  obtain ⟨metadata, found⟩ := Option.isSome_iff_exists.mp present
  obtain ⟨other, otherMember, located⟩ := List.exists_of_findSome?_eq_some found
  obtain ⟨twin, first, rfl⟩ := Option.map_eq_some_iff.mp located
  have same : iteratedPath other twin.names = iteratedPath root place.names := by
    simpa using List.find?_some first
  rw [found, trees.denotes other otherMember root member twin (List.mem_of_find?_eq_some first) place here
    same]

/-- What the scanner lists. -/
theorem mem_scanned_iff (accepted : settings.Accepted) {path : Path} :
    path ∈ trees.scanned (settings.rules table) ↔
      ∃ root ∈ settings.indexRoots, ∃ place ∈ (trees.tree root).places, place.reached = true ∧
        iteratedPath root place.names = path ∧
          lists (settings.rules table) path place.file.regular (some place.file.size) = true := by
  rw [scanned, scanDirectories, List.flatMap_map, List.mem_flatMap]
  refine exists_congr fun root => and_congr_right fun member => ?_
  exact (Files.mem_walk_listing (accepted.rooted member) (trees.tree root) path).2

/-- The filters accept the path of a file that is there. -/
def accepts (rules : ScanRules) (path : Path) : Bool :=
  rules.matchesPath path && !rules.isPathExcluded path

theorem lists_eq_true_iff {rules : ScanRules} {path : Path} {regular : Bool} {size : Nat} :
    lists rules path regular (some size) = true ↔
      accepts rules path = true ∧ regular = true ∧ minimumSize ≤ size := by
  simp only [lists, accepts, Option.any_some, Bool.and_eq_true, decide_eq_true_eq]
  tauto

/-- Where the roots are spelled as they are put together, watchers and iterators name a file alike. -/
def Spelled (settings : IndexSettings) : Prop := ∀ root ∈ settings.indexRoots, watchedRoot root = root

instance : Decidable (Spelled settings) :=
  inferInstanceAs (Decidable (∀ root ∈ settings.indexRoots, watchedRoot root = root))

variable {rules : ScanRules}

theorem indexedLive_iff (spelled : Spelled settings) {root : Path} (member : root ∈ settings.indexRoots)
    {place : Place} (here : place ∈ (trees.tree root).places) {evt : FileEvent}
    (kind : evt = .added ∨ evt = .modified) :
    IndexedLive rules evt root place ↔
      accepts rules (iteratedPath root place.names) = true ∧ place.file.regular = true := by
  have there : evt ≠ .removed ∧ evt ≠ .renamedOld := by
    rcases kind with rfl | rfl <;> exact ⟨by decide, by decide⟩
  rw [IndexedLive, Files.shouldAcceptFileEvent_eq rules there.1 there.2,
    Files.reportedPath_eq (spelled root member) (Tree.names_ne_nil here), accepts]

theorem treeAgrees (accepted : settings.Accepted) (spelled : Spelled settings)
    (indexable : trees.Indexable (settings.rules table)) {root : Path}
    (member : root ∈ settings.indexRoots) :
    TreeAgrees (settings.rules table) root (trees.tree root) := by
  refine ⟨fun place here evt kind => ?_, fun place here _ => ?_⟩
  · rw [indexedLive_iff spelled member here kind, IndexedByScan, scanDirectory,
      (Files.mem_walk_listing (accepted.rooted member) (trees.tree root) _).2]
    constructor
    · intro live
      have added := (indexedLive_iff spelled member here (.inl rfl)).mpr live
      obtain ⟨reached, large⟩ := indexable root member place here added
      exact ⟨place, here, reached, rfl, lists_eq_true_iff.mpr ⟨live.1, live.2, large⟩⟩
    · rintro ⟨twin, twinHere, -, same, listed⟩
      obtain ⟨accept, regular, -⟩ := lists_eq_true_iff.mp listed
      rw [trees.denotes root member root member twin twinHere place here same] at regular
      exact ⟨accept, regular⟩
  · exact Files.reportedPath_eq (spelled root member) (Tree.names_ne_nil here)

/-- The documents a scan would find are the accepted regular files. -/
theorem expected_eq_some_iff (accepted : settings.Accepted) (spelled : Spelled settings)
    (indexable : trees.Indexable (settings.rules table)) {path : Path} {metadata : DocumentMetadata} :
    trees.expected (settings.rules table) path = some metadata ↔
      accepts (settings.rules table) path = true ∧ ∃ root ∈ settings.indexRoots, ∃ names file,
        trees.fileAt root names = some file ∧ iteratedPath root names = path ∧
          metadataOf file = metadata := by
  unfold expected
  constructor
  · intro found
    split at found
    · rename_i listed
      obtain ⟨root, member, place, here, -, rfl, passed⟩ :=
        (mem_scanned_iff accepted).mp (List.contains_iff_mem.mp listed)
      obtain ⟨accept, regular, -⟩ := lists_eq_true_iff.mp passed
      rw [trees.stat_of_place member here] at found
      exact ⟨accept, root, member, place.names, place.file,
        (fileAt_eq_some_iff member).mpr ⟨regular, place, here, rfl, rfl⟩, rfl, Option.some.inj found⟩
    · cases found
  · rintro ⟨accept, root, member, names, file, found, rfl, rfl⟩
    obtain ⟨regular, place, here, rfl, rfl⟩ := (fileAt_eq_some_iff member).mp found
    have live := (indexedLive_iff spelled member here (.inl rfl)).mpr ⟨accept, regular⟩
    obtain ⟨reached, large⟩ := indexable root member place here live
    have listed := (mem_scanned_iff accepted).mpr
      ⟨root, member, place, here, reached, rfl, lists_eq_true_iff.mpr ⟨accept, regular, large⟩⟩
    rw [if_pos (List.contains_iff_mem.mpr listed), trees.stat_of_place member here]

/-- The walk lists places in their order. -/
theorem sublist_walk (dir : Path) (tree : Tree) :
    (walk rules (tree.listing dir)).1.Sublist
      (tree.places.map fun place => iteratedPath dir place.names) := by
  induction tree generalizing dir with
  | ended => exact List.Sublist.refl _
  | file name found rest ih =>
      simp only [Tree.listing, walk, Tree.places, List.map_cons]
      split
      · exact (ih dir).cons_cons _
      · exact (ih dir).cons _
  | directory name entered content rest inner ih =>
      have inside : (walk rules (if entered then content.listing (Files.append dir name.1) else .ended)).1.Sublist
          (content.places.map fun place => iteratedPath (Files.append dir name.1) place.names) := by
        cases entered with
        | true => exact inner _
        | false => exact List.nil_sublist _
      have split : (Tree.directory name entered content rest).places.map
            (fun place => iteratedPath dir place.names) =
          content.places.map (fun place => iteratedPath (Files.append dir name.1) place.names) ++
            rest.places.map fun place => iteratedPath dir place.names := by
        simp only [Tree.places, List.map_append, List.map_map]
        rfl
      rw [split]
      simp only [Tree.listing, walk]
      generalize walk rules (if entered then content.listing (Files.append dir name.1) else .ended) =
        walked at inside ⊢
      split
      · exact (ih dir).trans (List.sublist_append_right _ _)
      · split
        · exact inside.trans (List.sublist_append_left _ _)
        · exact inside.append (ih dir)

/-- Every file with the root it is below. -/
def located (trees : FileTrees settings) : List (Path × Place) :=
  settings.indexRoots.flatMap fun root => (trees.tree root).places.map fun place => (root, place)

theorem mem_located_iff {root : Path} {place : Place} :
    (root, place) ∈ trees.located ↔ root ∈ settings.indexRoots ∧ place ∈ (trees.tree root).places := by
  simp [located, List.mem_flatMap]

theorem Apart.entries (apart : trees.Apart) :
    (trees.located.map fun entry => entry.2.file.entry).Nodup := by
  have same : trees.located.map (fun entry => entry.2.file.entry) =
      settings.indexRoots.flatMap fun root =>
        (trees.tree root).places.map fun place => place.file.entry := by
    simp only [located, List.map_flatMap, List.map_map]
    rfl
  rw [same]
  exact apart

/-- Places that are apart have different paths. -/
theorem Apart.nodup_scanned (apart : trees.Apart) : (trees.scanned rules).Nodup := by
  have sublist : (trees.scanned rules).Sublist
      (trees.located.map fun entry => iteratedPath entry.1 entry.2.names) := by
    simp only [scanned, scanDirectories, located, List.map_flatMap, List.map_map, List.flatMap_map]
    generalize settings.indexRoots = roots
    induction roots with
    | nil => exact List.Sublist.refl _
    | cons root rest ih => exact (sublist_walk root (trees.tree root)).append ih
  refine sublist.nodup (List.Nodup.map_on ?_ (List.Nodup.of_map _ apart.entries))
  rintro ⟨root, place⟩ left ⟨other, twin⟩ right same
  obtain ⟨member, here⟩ := mem_located_iff.mp left
  obtain ⟨otherMember, otherHere⟩ := mem_located_iff.mp right
  refine List.inj_on_of_nodup_map apart.entries left right ?_
  exact congrArg TreeFile.entry (trees.denotes root member other otherMember place here twin otherHere same)

/-- A file that is reached once has one path. -/
theorem Apart.path_eq (apart : trees.Apart) (spelled : Spelled settings) {entry : Nat} {left right : Path}
    (leftNames : trees.Names left entry) (rightNames : trees.Names right entry) : left = right := by
  have one : ∀ {path : Path}, trees.Names path entry → ∃ place ∈ trees.located,
      place.2.file.entry = entry ∧ path = iteratedPath place.1 place.2.names := by
    rintro path ⟨root, member, place, here, rfl, rfl | rfl⟩
    · exact ⟨(root, place), mem_located_iff.mpr ⟨member, here⟩, rfl, rfl⟩
    · exact ⟨(root, place), mem_located_iff.mpr ⟨member, here⟩, rfl,
        Files.reportedPath_eq (spelled root member) (Tree.names_ne_nil here)⟩
  obtain ⟨first, firstHere, firstEntry, rfl⟩ := one leftNames
  obtain ⟨second, secondHere, secondEntry, rfl⟩ := one rightNames
  have same : first = second :=
    List.inj_on_of_nodup_map apart.entries firstHere secondHere (firstEntry.trans secondEntry.symm)
  rw [same]

end FileTrees

/-! ## Events -/

namespace LiveEvent

variable {settings : IndexSettings} {trees : FileTrees settings} {table : CaseTable} {oem : OemTable}
  {order : IterationOrder} {s next : System}

/-- What makes an event bring the catalog up to date about a path. -/
def Settles (rules : ScanRules) (trees : FileTrees settings) (event : LiveEvent settings) (path : Path) :
    Prop :=
  event.path = path ∧ shouldAcceptFileEvent rules event.evt event.path = true ∧
    (event.Removes ↔ trees.fileAt event.root event.names = none)

theorem shouldAccept_eq {event : LiveEvent settings} (rules : ScanRules) (there : ¬ event.Removes) :
    shouldAcceptFileEvent rules event.evt event.path = FileTrees.accepts rules event.path := by
  obtain ⟨evt, root, names, watched, below⟩ := event
  refine Files.shouldAcceptFileEvent_eq rules ?_ ?_ _
  · rintro rfl
    exact there rfl
  · rintro rfl
    exact there rfl

/-- An event that is worked off leaves its path as the trees have it, unless it says nothing of it. -/
theorem handle_spec (accepted : settings.Accepted) (spelled : FileTrees.Spelled settings)
    (indexable : trees.Indexable (settings.rules table))
    (readable : s.catalog.readsRows = true → trees.Readable (settings.rules table) oem)
    {event : LiveEvent settings}
    (gone : event.Removes → ∀ root ∈ settings.indexRoots, ∀ place ∈ (trees.tree root).places,
      place.file.regular = true → iteratedPath root place.names ≠ event.path)
    (rest : s.AtRest) (done : event.handle oem (settings.rules table) order trees s = some next) :
    next.AtRest ∧ next.catalog.readsRows = s.catalog.readsRows ∧ ∀ path,
      next.catalog.active next.db path = trees.expected (settings.rules table) path ∨
        (next.catalog.active next.db path = s.catalog.active s.db path ∧
          ¬ event.Settles (settings.rules table) trees path) := by
  -- a step that sets the path of the event to what the trees have there
  have here : ∀ {metadata : Option DocumentMetadata}, s.Sets next event.path metadata →
      (metadata = trees.expected (settings.rules table) event.path ∨
        (metadata = s.catalog.active s.db event.path ∧
          ¬ event.Settles (settings.rules table) trees event.path)) →
      next.AtRest ∧ next.catalog.readsRows = s.catalog.readsRows ∧ ∀ path,
        next.catalog.active next.db path = trees.expected (settings.rules table) path ∨
          (next.catalog.active next.db path = s.catalog.active s.db path ∧
            ¬ event.Settles (settings.rules table) trees path) := by
    intro metadata sets outcome
    refine ⟨sets.rest, sets.storage, fun path => ?_⟩
    by_cases own : path = event.path
    · subst own
      rw [sets.own]
      exact outcome
    · exact .inr ⟨sets.others path own, fun settles => own settles.1.symm⟩
  unfold handle at done
  split at done
  · rename_i passed
    split at done
    · rename_i removes
      refine here (rest.deleteNow done) (.inl ?_)
      by_contra present
      obtain ⟨metadata, found⟩ := Option.ne_none_iff_exists'.mp (Ne.symm present)
      obtain ⟨-, root, member, names, file, located, same, -⟩ :=
        (FileTrees.expected_eq_some_iff accepted spelled indexable).mp found
      obtain ⟨regular, place, inTree, rfl, rfl⟩ := (FileTrees.fileAt_eq_some_iff member).mp located
      exact gone removes root member place inTree regular same
    · rename_i there
      cases located : trees.fileAt event.root event.names with
      | none =>
          rw [located, Option.map_none] at done
          refine here (rest.updateNow_none done) (.inr ⟨rfl, fun settles => ?_⟩)
          exact there (settles.2.2.mpr located)
      | some file =>
          rw [located, Option.map_some] at done
          have accept : FileTrees.accepts (settings.rules table) event.path = true :=
            (shouldAccept_eq (settings.rules table) there).symm.trans passed
          have named : iteratedPath event.root event.names = event.path :=
            (Files.reportedPath_eq (spelled event.root event.watched) event.below).symm
          have current : trees.expected (settings.rules table) event.path = some (metadataOf file) :=
            (FileTrees.expected_eq_some_iff accepted spelled indexable).mpr
              ⟨accept, event.root, event.watched, event.names, file, located, named, rfl⟩
          have words : s.catalog.readsRows = true →
              ∃ bytes, file.content = some bytes ∧ batchList oem bytes ≠ [] := by
            intro rows
            obtain ⟨regular, place, inTree, sameNames, rfl⟩ :=
              (FileTrees.fileAt_eq_some_iff event.watched).mp located
            have live : IndexedLive (settings.rules table) .added event.root place :=
              (FileTrees.indexedLive_iff spelled event.watched inTree (.inl rfl)).mpr
                ⟨by rw [sameNames, named]; exact accept, regular⟩
            have filled := readable rows event.root event.watched place inTree live
            obtain ⟨list, read, nonempty⟩ := (Option.any_eq_true _ _).mp filled
            obtain ⟨bytes, content, rfl⟩ := Option.map_eq_some_iff.mp read
            exact ⟨bytes, content, by simpa using nonempty⟩
          exact here (rest.updateNow_some words done) (.inl current.symm)
  · rename_i refused
    obtain rfl := Option.some.inj done
    exact ⟨rest, rfl, fun path => .inr ⟨rfl, fun settles => refused settles.2.1⟩⟩

/-- Events that settle every path that is out of date bring the catalog up to date. -/
theorem foldlM_handle (accepted : settings.Accepted) (spelled : FileTrees.Spelled settings)
    (indexable : trees.Indexable (settings.rules table)) {events : List (LiveEvent settings)}
    (gone : ∀ event ∈ events, event.Removes → ∀ root ∈ settings.indexRoots,
      ∀ place ∈ (trees.tree root).places, place.file.regular = true →
        iteratedPath root place.names ≠ event.path)
    (readable : s.catalog.readsRows = true → trees.Readable (settings.rules table) oem) (rest : s.AtRest)
    (settled : ∀ path, s.catalog.active s.db path ≠ trees.expected (settings.rules table) path →
      ∃ event ∈ events, event.Settles (settings.rules table) trees path)
    (done : events.foldlM (handle oem (settings.rules table) order trees) s = some next) :
    next.AtRest ∧ next.catalog.readsRows = s.catalog.readsRows ∧
      ∀ path, next.catalog.active next.db path = trees.expected (settings.rules table) path := by
  induction events generalizing s with
  | nil =>
      obtain rfl := Option.some.inj done
      refine ⟨rest, rfl, fun path => ?_⟩
      by_contra outdated
      obtain ⟨event, member, -⟩ := settled path outdated
      cases member
  | cons event others ih =>
      rw [List.foldlM_cons] at done
      obtain ⟨middle, handled, remaining⟩ := Option.bind_eq_some_iff.mp done
      obtain ⟨middleRest, storage, paths⟩ := handle_spec accepted spelled indexable readable
        (gone event List.mem_cons_self) rest handled
      have later := ih (fun other member => gone other (List.mem_cons_of_mem _ member))
        (fun rows => readable (storage ▸ rows)) middleRest (fun path outdated => ?_) remaining
      · exact ⟨later.1, later.2.1.trans storage, later.2.2⟩
      · rcases paths path with current | ⟨same, unsettled⟩
        · exact absurd current outdated
        · obtain ⟨other, member, settles⟩ := settled path (same ▸ outdated)
          rcases List.mem_cons.mp member with rfl | later
          · exact absurd settles unsettled
          · exact ⟨other, later, settles⟩

/-- Reported changes settle what they put out of date. -/
theorem settled_of_reports {before after : FileTrees settings} (accepted : settings.Accepted)
    (spelled : FileTrees.Spelled settings) (beforeIndexable : before.Indexable (settings.rules table))
    (afterIndexable : after.Indexable (settings.rules table)) {events : List (LiveEvent settings)}
    (reports : Reports before after events) {path : Path}
    (outdated : before.expected (settings.rules table) path ≠ after.expected (settings.rules table) path) :
    ∃ event ∈ events, event.Settles (settings.rules table) after path := by
  -- the event about a place whose file has changed
  have reported : ∀ {root : Path} {names : List FileName}, root ∈ settings.indexRoots →
      FileTrees.accepts (settings.rules table) (iteratedPath root names) = true →
      before.fileAt root names ≠ after.fileAt root names →
        ∃ event ∈ events, event.Settles (settings.rules table) after (iteratedPath root names) := by
    intro root names member accept changed
    have somewhere : ∃ place ∈ (before.tree root).places ++ (after.tree root).places,
        place.names = names := by
      by_contra nowhere
      push Not at nowhere
      have empty : ∀ trees : FileTrees settings, (∀ place ∈ (trees.tree root).places, place.names ≠ names) →
          trees.fileAt root names = none := by
        intro trees absent
        by_contra present
        obtain ⟨file, found⟩ := Option.ne_none_iff_exists'.mp present
        obtain ⟨-, place, here, same, -⟩ := (FileTrees.fileAt_eq_some_iff member).mp found
        exact absent place here same
      rw [empty before fun place here => nowhere place (List.mem_append_left _ here),
        empty after fun place here => nowhere place (List.mem_append_right _ here)] at changed
      exact changed rfl
    obtain ⟨place, inTrees, rfl⟩ := somewhere
    obtain ⟨event, listed, rfl, sameNames, kind⟩ := reports.changed root member place inTrees changed
    rw [← sameNames] at accept kind ⊢
    have named : event.path = iteratedPath event.root event.names :=
      Files.reportedPath_eq (spelled event.root event.watched) event.below
    refine ⟨event, listed, named, ?_, kind⟩
    rw [FileTrees.accepts, Bool.and_eq_true, ← named] at accept
    unfold shouldAcceptFileEvent
    simp only [accept.1, Bool.not_true, Bool.false_eq_true, if_false]
    have included : (settings.rules table).isPathExcluded event.path = false := by simpa using accept.2
    simp [included]
  cases now : after.expected (settings.rules table) path with
  | some metadata =>
      obtain ⟨accept, root, member, names, file, found, rfl, rfl⟩ :=
        (FileTrees.expected_eq_some_iff accepted spelled afterIndexable).mp now
      refine reported member accept fun same => outdated ?_
      rw [now]
      exact (FileTrees.expected_eq_some_iff accepted spelled beforeIndexable).mpr
        ⟨accept, root, member, names, file, same.trans found, rfl, rfl⟩
  | none =>
      rw [now] at outdated
      obtain ⟨metadata, earlier⟩ := Option.ne_none_iff_exists'.mp outdated
      obtain ⟨accept, root, member, names, file, found, rfl, rfl⟩ :=
        (FileTrees.expected_eq_some_iff accepted spelled beforeIndexable).mp earlier
      refine reported member accept fun same => ?_
      have still := (FileTrees.expected_eq_some_iff accepted spelled afterIndexable).mpr
        ⟨accept, root, member, names, file, same.symm.trans found, rfl, rfl⟩
      rw [now] at still
      cases still

end LiveEvent

/-! ## Runs -/

namespace LiveIndex

variable {settings : IndexSettings} {table : CaseTable} {oem : OemTable} {s after : LiveIndex settings}

/-- The catalog is up to date about trees that can be indexed. -/
structure UpToDate (rules : ScanRules) (s : LiveIndex settings) : Prop where
  rest : s.system.AtRest
  indexable : s.trees.Indexable rules
  apart : s.trees.Apart
  current : ∀ path, s.system.catalog.active s.system.db path = s.trees.expected rules path

theorem UpToDate.agrees (accepted : settings.Accepted) (spelled : FileTrees.Spelled settings)
    (current : s.UpToDate (settings.rules table)) : s.Agrees (settings.rules table) := by
  constructor
  case trees => exact fun root member => FileTrees.treeAgrees accepted spelled current.indexable member
  case scan =>
    refine DocumentCatalog.scan_of_current current.rest.paths current.rest.persisted
      current.apart.nodup_scanned (fun path listed => ?_)
      fun path => (current.current path).trans (s.trees.expected_eq _ path)
    obtain ⟨root, member, place, here, -, rfl, -⟩ := (FileTrees.mem_scanned_iff accepted).mp listed
    rw [FileTrees.stat_of_place member here]
    rfl
  case single =>
    intro entry left right leftNames rightNames leftRecord rightRecord leftFound rightFound
    obtain rfl := current.apart.path_eq spelled leftNames rightNames
    rw [leftFound] at rightFound
    exact congrArg DocumentRecord.id (Option.some.inj rightFound)

theorem UpToDate.step (accepted : settings.Accepted) (spelled : FileTrees.Spelled settings)
    (current : s.UpToDate (settings.rules table)) {change : Change settings}
    (followed : s.Followed oem (settings.rules table) change)
    (done : s.step oem (settings.rules table) change = some after) :
    after.UpToDate (settings.rules table) := by
  obtain ⟨system, handled, rfl⟩ := Option.map_eq_some_iff.mp done
  obtain ⟨rest, -, paths⟩ := LiveEvent.foldlM_handle accepted spelled followed.indexable
    followed.reports.gone followed.readable current.rest (fun path outdated =>
      LiveEvent.settled_of_reports accepted spelled current.indexable followed.indexable followed.reports
        (current.current path ▸ outdated)) handled
  exact ⟨rest, followed.indexable, followed.apart, paths⟩

/-- Live events and scans agree in every state of a run whose changes are followed. -/
theorem agrees_of_followed (table : CaseTable) (oem : OemTable) {settings : IndexSettings}
    (accepted : settings.Accepted) (spelled : FileTrees.Spelled settings)
    {storage : System.CatalogStorage} {db : Database} {precountPostings : Bool} {system : System}
    (unique : db.PathsUnique) (started : System.start storage db precountPostings = some system)
    {trees : FileTrees settings} (indexable : trees.Indexable (settings.rules table))
    (apart : trees.Apart)
    (current : ∀ path, system.catalog.active system.db path = trees.expected (settings.rules table) path)
    {changes : List (Change settings)}
    (conforms : (machine oem (settings.rules table)).Conforms (Followed oem (settings.rules table))
      ⟨trees, system⟩ changes) :
    (machine oem (settings.rules table)).Throughout (Agrees (settings.rules table)) ⟨trees, system⟩
      changes := by
  have rest : system.AtRest := by
    obtain ⟨index, -, rfl⟩ := Option.map_eq_some_iff.mp started
    refine ⟨⟨rfl, rfl, rfl⟩, rfl, rfl, DocumentCatalog.pathsAgree_openCatalog storage unique, fun path => ?_⟩
    cases storage with
    | memory => trivial
    | sqlite => rfl
  have initial : UpToDate (settings.rules table) ⟨trees, system⟩ := ⟨rest, indexable, apart, current⟩
  refine Machine.throughout_of_conforms (fun s current => current.agrees accepted spelled) ?_ initial conforms
  exact fun s change after current followed done => current.step accepted spelled followed done

/-! ## One file -/

/-- One index root, text files. -/
def dataSettings : IndexSettings := ⟨["D:\\data".toList], ⟨["txt".toList], false⟩, []⟩

def asciiTable : CaseTable := ⟨Char.toLower, Char.toUpper, by decide⟩

def letterName : FileName := ⟨['a', '.', 't', 'x', 't'], by simp [Files.isSeparator]⟩

/-- Below the root there is at most one file. -/
def singleFile (file : Option TreeFile) : FileTrees dataSettings where
  tree _ :=
    match file with
    | none => .ended
    | some found => .file letterName found .ended
  denotes := by
    intro root _ other _ place here twin twinHere _
    cases file with
    | none => cases here
    | some found =>
        obtain rfl := List.mem_singleton.mp here
        obtain rfl := List.mem_singleton.mp twinHere
        rfl

/-- The file is created with this size, and reported. -/
def created (size : Nat) : Change dataSettings where
  after := singleFile (some ⟨0, true, 1, size, some (Word.ofAscii "ANNA")⟩)
  events := [⟨.added, "D:\\data".toList, [letterName], by decide, by decide⟩]
  order := .increasing

/-- The empty directory, and an index of it. -/
def emptyRoot : LiveIndex dataSettings := ⟨singleFile none, System.emptyStart⟩

/-- A file of twelve bytes is indexed by its event and found by the scan. -/
theorem agrees_created :
    ((machine .plain (dataSettings.rules asciiTable)).run emptyRoot [created 12]).isSome ∧
      (machine .plain (dataSettings.rules asciiTable)).Throughout (Agrees (dataSettings.rules asciiTable))
        emptyRoot [created 12] := by
  have followed : Followed .plain (dataSettings.rules asciiTable) emptyRoot (created 12) :=
    ⟨⟨by decide +kernel, by decide +kernel⟩, by decide +kernel, fun _ => by decide +kernel, by decide +kernel⟩
  refine ⟨by decide +kernel, agrees_of_followed asciiTable .plain (by decide +kernel) (by decide +kernel)
    (fun _ _ _ _ stored => by cases stored) System.started_emptyStart (by decide +kernel)
    (by decide +kernel) (fun _ => rfl) ⟨followed, fun _ _ => trivial⟩⟩

/-- A file of four bytes is indexed by its event, and the next scan removes it. -/
theorem not_agrees_created :
    ¬ (machine .plain (dataSettings.rules asciiTable)).Throughout (Agrees (dataSettings.rules asciiTable))
      emptyRoot [created 4] := by
  intro throughout
  have taken : ((machine .plain (dataSettings.rules asciiTable)).step emptyRoot (created 4)).map
      (fun s => (s.system.catalog.scan s.system.db s.trees.stat
        (s.trees.scanned (dataSettings.rules asciiTable))).2) = some (some ⟨[], [], [0]⟩) := by
    decide +kernel
  obtain ⟨after, stepped, reported⟩ := Option.map_eq_some_iff.mp taken
  have agrees : after.Agrees (dataSettings.rules asciiTable) := (throughout.2 after stepped).here
  rw [agrees.scan] at reported
  cases reported

end LiveIndex

end SearchEngine.Index
