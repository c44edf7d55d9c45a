import SearchEngine.Files.FileScanner
import SearchEngine.Index.CatalogScan
import SearchEngine.Index.NumberedSystem

/-!
# A scan that was broken off

A full update takes every known path that was not listed for a removed file. The
scanner lists fewer files when a root is missing or an enumeration breaks off, and
says so only in its log. Nothing below such a root is removed exactly when all its
documents were listed before the enumeration broke off, or the catalog refuses
the scan.
-/

namespace SearchEngine.Index

open SearchEngine.Lib
open SearchEngine.Files (RootScan ScanRules scanDirectories isBelow)

/-! ## Documents -/

/-- The path of a document and whether it is flagged as deleted. -/
def DocumentCatalog.document (catalog : DocumentCatalog) (db : Database) (id : FileId) :
    Option (Path × Bool) :=
  match catalog with
  | .memory paths => (paths.infoById id).map fun entry => (entry.1, entry.2.deleted)
  | .sqlite _ => (db.docs.find? id).map fun row => (row.path, row.deleted)

namespace System

/-- The document exists, is not flagged as deleted, and lies below the root. -/
def ActiveBelow (s : System) (root : Path) (id : FileId) : Prop :=
  ∃ path, s.catalog.document s.db id = some (path, false) ∧ isBelow root path = true

/-- The catalog refuses the scan: a listed file cannot be read, or the SQLite catalog
is given a path twice. -/
def ScanRefused (s : System) (stat : Stat) (listed : List Path) : Prop :=
  (∃ path ∈ listed, stat path = none) ∨
    (match s.catalog with
      | .memory _ => False
      | .sqlite _ => ¬ listed.Nodup)

/-- The update leaves the documents below a root alone: it reports none of them as
removed, does not flag them in the catalog, and writes nothing about their deletion. -/
structure KeepsBelow (s after : System) (stat : Stat) (listed : List Path) (root : Path) : Prop where
  reported : ∀ diff, (s.catalog.scan s.db stat listed).2 = some diff →
    ∀ id ∈ diff.removed, ¬ s.ActiveBelow root id
  catalog : ∀ id, s.ActiveBelow root id → after.catalog.isDeleted after.db id = false
  queue : ∀ id, s.ActiveBelow root id → LiveMirrorOp.markDeleted id ∈ after.queue →
    LiveMirrorOp.markDeleted id ∈ s.queue
  database : ∀ id, s.ActiveBelow root id → ∀ order flushed unflushed,
    after.flushPending order = some flushed → s.flushPending order = some unflushed →
      flushed.db.docs.find? id = unflushed.db.docs.find? id

end System

/-! ## The catalog in memory -/

namespace DocPaths

variable {paths : DocPaths} {stat : Stat} {scanned : List Path}

/-- A visit changes the entry of the visited path only, and keeps its number. -/
theorem visitPath_find? (pack : UpdatePack) (path other : Path) (metadata : DocumentMetadata)
    (different : path ≠ other) :
    (paths.visitPath pack path metadata).1.path2info.find? other = paths.path2info.find? other := by
  unfold visitPath
  cases found : paths.path2info.find? path with
  | none => simp [addNew, different]
  | some info =>
      dsimp only
      split
      · simp [different]
      · rfl

theorem visitPath_active (pack : UpdatePack) (path other : Path) (metadata : DocumentMetadata)
    {info : FileInfo} (found : paths.path2info.find? other = some info) (active : info.deleted = false) :
    ∃ later, (paths.visitPath pack path metadata).1.path2info.find? other = some later ∧
      later.id = info.id ∧ later.deleted = false := by
  by_cases same : path = other
  · subst same
    simp only [visitPath, found]
    split
    · exact ⟨⟨metadata, info.id, false⟩, by simp, rfl, rfl⟩
    · exact ⟨info, found, rfl, active⟩
  · exact ⟨info, (visitPath_find? pack path other metadata same).trans found, rfl, active⟩

theorem visitPath_id2path (pack : UpdatePack) (path : Path) (metadata : DocumentMetadata) :
    ∃ more, (paths.visitPath pack path metadata).1.id2path = paths.id2path ++ more := by
  unfold visitPath
  cases paths.path2info.find? path with
  | none => exact ⟨[some path], rfl⟩
  | some info =>
      dsimp only
      split <;> exact ⟨[], (List.append_nil _).symm⟩

/-- What the first loop leaves of the entries and numbers. -/
structure Visited (paths visited : DocPaths) (scanned : List Path) : Prop where
  unlisted : ∀ path, path ∉ scanned → visited.path2info.find? path = paths.path2info.find? path
  active : ∀ path info, paths.path2info.find? path = some info → info.deleted = false →
    ∃ later, visited.path2info.find? path = some later ∧ later.id = info.id ∧ later.deleted = false
  numbers : ∃ more, visited.id2path = paths.id2path ++ more

theorem visited_visitPaths (stat : Stat) (scanned : List Path) (paths : DocPaths) (pack : UpdatePack) :
    Visited paths (visitPaths stat scanned paths pack).1 scanned := by
  induction scanned generalizing paths pack with
  | nil => exact ⟨fun _ _ => rfl, fun _ info found active => ⟨info, found, rfl, active⟩, [],
      (List.append_nil _).symm⟩
  | cons path rest ih =>
      unfold visitPaths
      cases stat path with
      | none => exact ⟨fun _ _ => rfl, fun _ info found active => ⟨info, found, rfl, active⟩, [],
          (List.append_nil _).symm⟩
      | some metadata =>
          have later := ih (paths.visitPath pack path metadata).1 (paths.visitPath pack path metadata).2
          constructor
          case unlisted =>
            intro other absent
            obtain ⟨different, restAbsent⟩ := List.ne_and_not_mem_of_not_mem_cons absent
            rw [later.unlisted other restAbsent]
            exact visitPath_find? pack path other metadata (Ne.symm different)
          case active =>
            intro other info found active
            obtain ⟨middle, middleFound, middleId, middleActive⟩ :=
              visitPath_active pack path other metadata found active
            obtain ⟨last, lastFound, lastId, lastActive⟩ := later.active other middle middleFound middleActive
            exact ⟨last, lastFound, lastId.trans middleId, lastActive⟩
          case numbers =>
            obtain ⟨first, firstEq⟩ := @visitPath_id2path paths pack path metadata
            obtain ⟨second, secondEq⟩ := later.numbers
            exact ⟨first ++ second, by rw [secondEq, firstEq, List.append_assoc]⟩

/-- The first loop throws exactly on an unreadable file. -/
theorem visitPaths_eq_none_iff (stat : Stat) (scanned : List Path) (paths : DocPaths)
    (pack : UpdatePack) :
    (visitPaths stat scanned paths pack).2 = none ↔ ∃ path ∈ scanned, stat path = none := by
  induction scanned generalizing paths pack with
  | nil => simp [visitPaths]
  | cons path rest ih =>
      unfold visitPaths
      cases read : stat path with
      | none => simp [read]
      | some metadata => simp [read, ih]

/-- Flagging some paths leaves the others alone. -/
theorem find?_flagged (keys : List Path) (paths : DocPaths) {path : Path} (absent : path ∉ keys) :
    (keys.foldl (fun marked path =>
        ({ marked with path2info :=
            marked.path2info.modify path fun info => { info with deleted := true } } : DocPaths))
      paths).path2info.find? path = paths.path2info.find? path := by
  induction keys generalizing paths with
  | nil => rfl
  | cons key rest ih =>
      obtain ⟨different, restAbsent⟩ := List.ne_and_not_mem_of_not_mem_cons absent
      rw [List.foldl_cons, ih _ restAbsent, SortedMap.find?_modify, if_neg (Ne.symm different)]

theorem id2path_flagged (keys : List Path) (paths : DocPaths) :
    (keys.foldl (fun marked path =>
        ({ marked with path2info :=
            marked.path2info.modify path fun info => { info with deleted := true } } : DocPaths))
      paths).id2path = paths.id2path := by
  induction keys generalizing paths with
  | nil => rfl
  | cons key rest ih => exact ih _

/-- The numbers of unlisted active entries are the removed ones. -/
theorem mem_removed_iff {diff : CatalogDiff} (done : (paths.scan stat scanned).2 = some diff)
    {id : FileId} :
    id ∈ diff.removed ↔ ∃ path info, paths.path2info.find? path = some info ∧ info.id = id ∧
      info.deleted = false ∧ path ∉ scanned := by
  have spec := visited_visitPaths stat scanned paths ⟨[], [], []⟩
  unfold scan getUpdate at done
  rcases visitedEq : visitPaths stat scanned paths ⟨[], [], []⟩ with ⟨visited, result⟩
  rw [visitedEq] at spec done
  have selected : ∀ path info, (visited.unseen scanned).find? path = some info ↔
      visited.path2info.find? path = some info ∧ info.deleted = false ∧ path ∉ scanned := by
    intro path info
    rw [unseen, SortedMap.find?_filter, Option.filter_eq_some_iff]
    simp
  cases result with
  | none => cases done
  | some pack =>
      obtain rfl := Option.some.inj done
      simp only [List.mem_map]
      constructor
      · rintro ⟨⟨path, info⟩, member, rfl⟩
        obtain ⟨found, active, absent⟩ := (selected path info).mp (SortedMap.mem_entries_iff.mp member)
        exact ⟨path, info, (spec.unlisted path absent).symm.trans found, rfl, active, absent⟩
      · rintro ⟨path, info, found, rfl, active, absent⟩
        have kept := (spec.unlisted path absent).trans found
        exact ⟨(path, info), SortedMap.mem_entries_iff.mpr ((selected path info).mpr ⟨kept, active, absent⟩),
          rfl⟩

/-- After a scan an active entry that was listed, or whose scan threw, is active under its
number, and numbers lead to the same paths. -/
theorem scan_keeps_active {path : Path} {info : FileInfo} (found : paths.path2info.find? path = some info)
    (active : info.deleted = false)
    (listed : (paths.scan stat scanned).2.isSome → path ∈ scanned) :
    ∃ later, (paths.scan stat scanned).1.path2info.find? path = some later ∧ later.deleted = false := by
  have spec := visited_visitPaths stat scanned paths ⟨[], [], []⟩
  unfold scan getUpdate at listed ⊢
  rcases visitedEq : visitPaths stat scanned paths ⟨[], [], []⟩ with ⟨visited, result⟩
  rw [visitedEq] at spec listed
  obtain ⟨later, present, -, stillActive⟩ := spec.active path info found active
  cases result with
  | none => exact ⟨later, present, stillActive⟩
  | some pack =>
      have unflagged : path ∉ (visited.unseen scanned).keys := by
        intro member
        obtain ⟨stored, kept⟩ := SortedMap.mem_keys_iff.mp member
        rw [unseen, SortedMap.find?_filter, Option.filter_eq_some_iff] at kept
        simp [listed rfl] at kept
      exact ⟨later, (find?_flagged _ visited unflagged).trans present, stillActive⟩

theorem scan_id2path (paths : DocPaths) (stat : Stat) (scanned : List Path) :
    ∃ more, (paths.scan stat scanned).1.id2path = paths.id2path ++ more := by
  have spec := visited_visitPaths stat scanned paths ⟨[], [], []⟩
  unfold scan getUpdate
  rcases visitedEq : visitPaths stat scanned paths ⟨[], [], []⟩ with ⟨visited, result⟩
  rw [visitedEq] at spec
  cases result with
  | none => exact spec.numbers
  | some pack =>
      obtain ⟨more, same⟩ := spec.numbers
      exact ⟨more, (id2path_flagged _ visited).trans same⟩

/-- Marking the numbers of other paths leaves an entry alone. -/
theorem find?_foldl_markRemoved {path : Path} (ids : List FileId) (paths : DocPaths)
    (others : ∀ id ∈ ids, paths.id2path[id]?.join ≠ some path) :
    (ids.foldl DocPaths.markRemoved paths).path2info.find? path = paths.path2info.find? path ∧
      (ids.foldl DocPaths.markRemoved paths).id2path = paths.id2path := by
  induction ids generalizing paths with
  | nil => exact ⟨rfl, rfl⟩
  | cons id rest ih =>
      have numbers : (paths.markRemoved id).id2path = paths.id2path := by
        unfold markRemoved
        split <;> rfl
      have entry : (paths.markRemoved id).path2info.find? path = paths.path2info.find? path := by
        have different := others id List.mem_cons_self
        unfold markRemoved
        split
        · rfl
        · rename_i other leads
          have apart : other ≠ path := fun same => different (leads.trans (congrArg some same))
          rw [SortedMap.find?_modify, if_neg apart]
      obtain ⟨restEntry, restNumbers⟩ := ih (paths.markRemoved id) fun other member => by
        rw [numbers]
        exact others other (List.mem_cons_of_mem _ member)
      exact ⟨restEntry.trans entry, restNumbers.trans numbers⟩

end DocPaths

/-! ## The catalog in the database -/

namespace SQLiteCatalog

/-- The numbers of unlisted active rows are the removed ones. -/
theorem mem_removed_iff {catalog : SQLiteCatalog} {db : Database} {stat : Stat} {scanned : List Path}
    {diff : CatalogDiff} (unique : db.PathsUnique)
    (below : ∀ id row, db.docs.find? id = some row → id < catalog.nextId)
    (done : (catalog.scan db stat scanned).2 = some diff) {id : FileId} :
    id ∈ diff.removed ↔ ∃ row, db.docs.find? id = some row ∧ row.deleted = false ∧
      row.path ∉ scanned := by
  obtain ⟨-, spec, removed, -⟩ := scan_of_some done
  have numbered : ∀ row, db.docs.find? id = some row → id ∉ diff.added.map CatalogScanItem.id := by
    intro row found added
    have numbers : diff.added.map CatalogScanItem.id = List.range' catalog.nextId diff.added.length :=
      spec.numbers
    rw [numbers, List.mem_range'_1] at added
    exact absurd (below id row found) (not_lt.mpr added.1)
  have listed : ∀ row, db.docs.find? id = some row → (id ∈ foundIds db scanned ↔ row.path ∈ scanned) := by
    intro row found
    constructor
    · intro member
      obtain ⟨path, inList, located⟩ := List.mem_filterMap.mp member
      obtain ⟨record, byPath, rfl⟩ := Option.map_eq_some_iff.mp located
      have stored := (Database.findByPath_spec byPath).1
      rw [found] at stored
      rwa [Option.some.inj stored]
    · intro inList
      obtain ⟨record, byPath⟩ := Option.isSome_iff_exists.mp (Database.isSome_findByPath found)
      have stored := (Database.findByPath_spec byPath).1
      have same : record.id = id := unique _ _ _ _ stored found rfl
      exact List.mem_filterMap.mpr ⟨row.path, inList, by rw [byPath, Option.map_some, same]⟩
  rw [removed]
  simp only [List.mem_map, List.mem_filter]
  constructor
  · rintro ⟨⟨other, row⟩, ⟨member, kept⟩, rfl⟩
    have found := SortedMap.mem_entries_iff.mp member
    simp only [Bool.and_eq_true, Bool.not_eq_true', decide_eq_true_eq, List.mem_append, not_or] at kept
    exact ⟨row, found, kept.1, fun inList => kept.2.2 ((listed row found).mpr inList)⟩
  · rintro ⟨row, found, active, absent⟩
    refine ⟨(id, row), ⟨SortedMap.mem_entries_iff.mpr found, ?_⟩, rfl⟩
    have fresh : id ∉ diff.added.map CatalogScanItem.id ++ foundIds db scanned := by
      intro member
      rcases List.mem_append.mp member with added | known
      · exact numbered row found added
      · exact absent ((listed row found).mp known)
    simp only [active, Bool.not_false, Bool.true_and, decide_eq_true_eq]
    exact fresh

/-- The scan throws exactly on an unreadable file or a repeated path. -/
theorem scan_eq_none_iff (catalog : SQLiteCatalog) (db : Database) (stat : Stat) (scanned : List Path) :
    (catalog.scan db stat scanned).2 = none ↔ (∃ path ∈ scanned, stat path = none) ∨ ¬ scanned.Nodup := by
  by_cases distinct : scanned.Nodup
  · have paths : (∃ path ∈ scanned, stat path = none) ↔ ∃ entry ∈ scanned.zipIdx, stat entry.1 = none := by
      constructor
      · rintro ⟨path, member, unreadable⟩
        rw [← List.zipIdx_map_fst 0 scanned] at member
        obtain ⟨entry, inZip, rfl⟩ := List.mem_map.mp member
        exact ⟨entry, inZip, unreadable⟩
      · rintro ⟨entry, inZip, unreadable⟩
        exact ⟨entry.1, List.fst_mem_of_mem_zipIdx inZip, unreadable⟩
    simp only [scan, distinct, not_true_eq_false, or_false, paths, ↓reduceIte]
    cases visited : scanPaths db stat scanned.zipIdx catalog.nextId with
    | none =>
        refine iff_of_true rfl ?_
        by_contra readable
        push Not at readable
        have allRead : ∀ entry ∈ scanned.zipIdx, (stat entry.1).isSome :=
          fun entry member => Option.isSome_iff_ne_none.mpr (readable entry member)
        obtain ⟨diff, done⟩ := @scanPaths_of_readable db stat _ allRead catalog.nextId
        rw [visited] at done
        cases done
    | some diff =>
        refine iff_of_false (by simp) ?_
        rintro ⟨entry, member, unreadable⟩
        have read := (reported_of_scanPaths visited).readable entry member
        simp [unreadable] at read
  · simp [scan, distinct]

end SQLiteCatalog

/-! ## Both catalogs -/

namespace DocumentCatalog

variable {catalog : DocumentCatalog} {db : Database} {stat : Stat} {scanned : List Path}
  {diff : CatalogDiff}

/-- What a scan reports as removed was active and is not listed. -/
theorem document_of_mem_removed (numbers : catalog.NumbersBelow db) (unique : db.PathsUnique)
    (done : (catalog.scan db stat scanned).2 = some diff) {id : FileId} (member : id ∈ diff.removed) :
    ∃ path, catalog.document db id = some (path, false) ∧ path ∉ scanned := by
  cases catalog with
  | memory paths =>
      have wellFormed : paths.WellFormed := numbers
      obtain ⟨path, info, found, rfl, active, absent⟩ := (DocPaths.mem_removed_iff done).mp member
      refine ⟨path, ?_, absent⟩
      simp [document, DocPaths.infoById, wellFormed path info found, found, active]
  | sqlite state =>
      obtain ⟨row, found, active, absent⟩ :=
        (SQLiteCatalog.mem_removed_iff unique numbers.2 done).mp member
      exact ⟨row.path, by simp [document, found, active], absent⟩

/-- Every unlisted active path is reported as removed, under a number of its own. -/
theorem mem_removed_of_unlisted (numbers : catalog.NumbersBelow db) (unique : db.PathsUnique)
    (done : (catalog.scan db stat scanned).2 = some diff) {id : FileId} {path : Path}
    (active : catalog.document db id = some (path, false)) (absent : path ∉ scanned) :
    ∃ other ∈ diff.removed, catalog.document db other = some (path, false) := by
  cases catalog with
  | memory paths =>
      have wellFormed : paths.WellFormed := numbers
      obtain ⟨⟨located, info⟩, leads, same⟩ := Option.map_eq_some_iff.mp active
      obtain ⟨rfl, unflagged⟩ := Prod.mk.inj same
      obtain ⟨_, -, entry⟩ := Option.bind_eq_some_iff.mp leads
      obtain ⟨stored, found, rest⟩ := Option.map_eq_some_iff.mp entry
      obtain ⟨rfl, rfl⟩ := Prod.mk.inj rest
      refine ⟨stored.id, (DocPaths.mem_removed_iff done).mpr ⟨_, stored, found, rfl, unflagged, absent⟩, ?_⟩
      have back := wellFormed _ stored found
      have flag : stored.deleted = false := unflagged
      simp [document, DocPaths.infoById, back, found, flag]
  | sqlite state =>
      obtain ⟨row, found, same⟩ := Option.map_eq_some_iff.mp active
      obtain ⟨rfl, unflagged⟩ := Prod.mk.inj same
      exact ⟨id, (SQLiteCatalog.mem_removed_iff unique numbers.2 done).mpr ⟨row, found, unflagged, absent⟩,
        active⟩

/-- Marking in memory. -/
theorem foldl_markRemoved_memory (ids : List FileId) (paths : DocPaths) :
    ids.foldl markRemoved (memory paths) = memory (ids.foldl DocPaths.markRemoved paths) := by
  induction ids generalizing paths with
  | nil => rfl
  | cons id rest ih => exact ih (paths.markRemoved id)

/-- The SQLite catalog leaves marking to the rows. -/
theorem foldl_markRemoved_sqlite (ids : List FileId) (state : SQLiteCatalog) :
    ids.foldl markRemoved (sqlite state) = sqlite state := by
  induction ids with
  | nil => rfl
  | cons id rest ih => exact ih

end DocumentCatalog

namespace System

variable {s after : System} {stat : Stat} {listed : List Path} {root : Path}

/-- A scan is refused exactly when it throws. -/
theorem scanRefused_iff : s.ScanRefused stat listed ↔ (s.catalog.scan s.db stat listed).2 = none := by
  unfold ScanRefused
  cases s.catalog with
  | memory paths =>
      rw [or_false, ← DocPaths.visitPaths_eq_none_iff stat listed paths ⟨[], [], []⟩]
      simp only [DocumentCatalog.scan, DocPaths.scan, DocPaths.getUpdate]
      rcases DocPaths.visitPaths stat listed paths ⟨[], [], []⟩ with ⟨visited, result⟩
      cases result <;> simp
  | sqlite state => exact (state.scan_eq_none_iff s.db stat listed).symm

/-- What a started update does to the catalog, the database and the queue. -/
theorem updateDocumentBase_spec (done : s.updateDocumentBase listed stat = some after) :
    after.db = s.db ∧
      after.catalog = ((s.catalog.scan s.db stat listed).2.elim [] CatalogDiff.removed).foldl
        DocumentCatalog.markRemoved (s.catalog.scan s.db stat listed).1 ∧
      after.queue = s.queue ++
        ((s.catalog.scan s.db stat listed).2.elim [] CatalogDiff.removed).map .markDeleted := by
  unfold updateDocumentBase at done
  split at done
  · cases done
  · dsimp only at done
    cases scanned : (s.catalog.scan s.db stat listed).2 with
    | none =>
        rw [scanned] at done
        obtain rfl := Option.some.inj done
        simp
    | some diff =>
        rw [scanned] at done
        dsimp only at done
        split at done
        · rename_i nothing
          obtain rfl := Option.some.inj done
          simp only [Bool.and_eq_true, List.isEmpty_iff] at nothing
          simp [nothing.2]
        · obtain rfl := Option.some.inj done
          exact ⟨rfl, rfl, rfl⟩

/-- The documents below a root that the scan must have listed for the update to keep. -/
def ListsBelow (s : System) (listed : List Path) (root : Path) : Prop :=
  ∀ id path, s.catalog.document s.db id = some (path, false) → isBelow root path = true → path ∈ listed

/-- Nothing below the root is reported when the scan threw or listed all of it. -/
theorem not_reported (numbers : s.catalog.NumbersBelow s.db) (unique : s.db.PathsUnique)
    (kept : s.ScanRefused stat listed ∨ s.ListsBelow listed root) {diff : CatalogDiff}
    (done : (s.catalog.scan s.db stat listed).2 = some diff) {id : FileId} (member : id ∈ diff.removed) :
    ¬ s.ActiveBelow root id := by
  rintro ⟨path, active, below⟩
  rcases kept with refused | listedBelow
  · rw [scanRefused_iff, done] at refused
    cases refused
  · obtain ⟨other, removed, absent⟩ := DocumentCatalog.document_of_mem_removed numbers unique done member
    rw [active] at removed
    obtain ⟨rfl, -⟩ := Prod.mk.inj (Option.some.inj removed)
    exact absent (listedBelow id path active below)

/-- The catalog keeps an active document whose path was listed, or whose scan threw. -/
theorem not_flagged (numbers : s.catalog.NumbersBelow s.db)
    (done : s.updateDocumentBase listed stat = some after) {id : FileId} {path : Path}
    (active : s.catalog.document s.db id = some (path, false))
    (kept : ((s.catalog.scan s.db stat listed).2).isSome → path ∈ listed) :
    after.catalog.isDeleted after.db id = false := by
  obtain ⟨sameDb, catalog, -⟩ := updateDocumentBase_spec done
  rw [sameDb, catalog]
  cases before : s.catalog with
  | memory paths =>
      have wellFormed : paths.WellFormed := by
        rw [before] at numbers
        exact numbers
      rw [before] at active kept
      obtain ⟨⟨_, info⟩, leads, same⟩ := Option.map_eq_some_iff.mp active
      obtain ⟨rfl, unflagged⟩ := Prod.mk.inj same
      obtain ⟨located, number, entry⟩ := Option.bind_eq_some_iff.mp leads
      obtain ⟨stored, found, rest⟩ := Option.map_eq_some_iff.mp entry
      obtain ⟨rfl, rfl⟩ := Prod.mk.inj rest
      obtain ⟨later, present, stillActive⟩ :=
        @DocPaths.scan_keeps_active paths stat listed located stored found unflagged kept
      obtain ⟨more, numbersKept⟩ := DocPaths.scan_id2path paths stat listed
      have leadsTo : ∀ (other : FileId) target, paths.id2path[other]? = some (some target) →
          (paths.scan stat listed).1.id2path[other]?.join = some target := by
        intro other target reads
        have small : other < paths.id2path.length := (List.getElem?_eq_some_iff.mp reads).1
        rw [numbersKept, List.getElem?_append_left small, reads]
        rfl
      have others : ∀ other ∈ (paths.scan stat listed).2.elim [] CatalogDiff.removed,
          (paths.scan stat listed).1.id2path[other]?.join ≠ some located := by
        intro other member same
        cases scanned : (paths.scan stat listed).2 with
        | none => simp [scanned] at member
        | some diff =>
            rw [scanned] at member
            obtain ⟨path, info, entry, rfl, -, absent⟩ := (DocPaths.mem_removed_iff scanned).mp member
            rw [leadsTo _ path (wellFormed path info entry)] at same
            obtain rfl := Option.some.inj same
            refine absent (kept ?_)
            change (paths.scan stat listed).2.isSome = true
            rw [scanned]
            exact rfl
      obtain ⟨entryKept, numberKept⟩ := DocPaths.find?_foldl_markRemoved _ _ others
      have read := leadsTo id located (Option.join_eq_some_iff.mp number)
      rw [← numberKept] at read
      rw [← entryKept] at present
      rw [DocumentCatalog.scan, DocumentCatalog.foldl_markRemoved_memory]
      simp [DocumentCatalog.isDeleted, DocPaths.isDeleted, DocPaths.infoById, read, present, stillActive]
  | sqlite state =>
      rw [before] at active
      obtain ⟨row, found, same⟩ := Option.map_eq_some_iff.mp active
      obtain ⟨rfl, unflagged⟩ := Prod.mk.inj same
      rw [DocumentCatalog.scan, DocumentCatalog.foldl_markRemoved_sqlite]
      simp [DocumentCatalog.isDeleted, found, unflagged]

/-- Deletion marks of other documents leave a row as it would be without them. -/
theorem row_of_marks (done : s.updateDocumentBase listed stat = some after) {id : FileId}
    (unmarked : ∀ diff, (s.catalog.scan s.db stat listed).2 = some diff → id ∉ diff.removed)
    {order : IterationOrder} {flushed unflushed : System}
    (updated : after.flushPending order = some flushed) (alone : s.flushPending order = some unflushed) :
    flushed.db.docs.find? id = unflushed.db.docs.find? id := by
  obtain ⟨sameDb, -, queue⟩ := updateDocumentBase_spec done
  obtain ⟨updatedDb, updatedWrite, rfl⟩ := flushPending_eq updated
  obtain ⟨aloneDb, aloneWrite, rfl⟩ := flushPending_eq alone
  have updatedRecords := congrFun (Database.writeBatch_spec updatedWrite).1 id
  have aloneRecords := congrFun (Database.writeBatch_spec aloneWrite).1 id
  have elsewhere : (((s.catalog.scan s.db stat listed).2.elim [] CatalogDiff.removed).map
      LiveMirrorOp.markDeleted).filter (fun op => decide (mirrorRules.key op = id)) = [] := by
    rw [List.filter_eq_nil_iff]
    intro op member
    obtain ⟨other, removed, rfl⟩ := List.mem_map.mp member
    cases scanned : (s.catalog.scan s.db stat listed).2 with
    | none => simp [scanned] at removed
    | some diff =>
        rw [scanned] at removed
        have different : other ≠ id := by
          rintro rfl
          exact unmarked diff scanned removed
        exact fun selected => different (of_decide_eq_true selected)
  rw [sameDb, queue, mirrorRules.applyAll_apply, List.filter_append, elsewhere, List.append_nil,
    ← mirrorRules.applyAll_apply, ← aloneRecords] at updatedRecords
  exact congrArg Database.DocRecord.row updatedRecords

/-- In every reached state, a full update leaves the documents below every broken off root
alone exactly when the catalog refuses the scan, or all of them were listed. -/
theorem keepsBelow_iff (oem : OemTable) (actions : List Action) {storage : CatalogStorage}
    {db : Database} {precountPostings : Bool} {started s after : System} {stat : Stat}
    (pathIndex : db.PathsUnique) (opened : start storage db precountPostings = some started)
    (reached : (machine oem).run started actions = some s) (rules : ScanRules) (scans : List RootScan)
    (done : s.updateDocumentBase (scanDirectories rules scans) stat = some after) :
    (∀ scan ∈ scans, scan.completed rules = false →
        s.KeepsBelow after stat (scanDirectories rules scans) scan.root) ↔
      s.ScanRefused stat (scanDirectories rules scans) ∨
        ∀ scan ∈ scans, scan.completed rules = false →
          s.ListsBelow (scanDirectories rules scans) scan.root := by
  obtain ⟨numbers, unique, -⟩ := (numbered_start pathIndex opened).run reached
  constructor
  · intro keeps
    cases scanned : (s.catalog.scan s.db stat (scanDirectories rules scans)).2 with
    | none => exact .inl (scanRefused_iff.mpr scanned)
    | some diff =>
        refine .inr fun scan member broken id path active below => ?_
        by_contra absent
        obtain ⟨other, removed, same⟩ :=
          DocumentCatalog.mem_removed_of_unlisted numbers unique scanned active absent
        exact (keeps scan member broken).reported diff scanned other removed ⟨path, same, below⟩
  · intro kept scan member broken
    have here : s.ScanRefused stat (scanDirectories rules scans) ∨
        s.ListsBelow (scanDirectories rules scans) scan.root :=
      kept.imp id fun lists => lists scan member broken
    have reported : ∀ diff, (s.catalog.scan s.db stat (scanDirectories rules scans)).2 = some diff →
        ∀ id ∈ diff.removed, ¬ s.ActiveBelow scan.root id :=
      fun diff scanned id removed => not_reported numbers unique here scanned removed
    have unmarked : ∀ id, s.ActiveBelow scan.root id → ∀ diff,
        (s.catalog.scan s.db stat (scanDirectories rules scans)).2 = some diff → id ∉ diff.removed :=
      fun id active diff scanned removed => reported diff scanned id removed active
    constructor
    case reported => exact reported
    case catalog =>
      rintro id ⟨path, active, below⟩
      refine not_flagged numbers done active fun scannedSome => ?_
      rcases here with refused | lists
      · rw [scanRefused_iff] at refused
        simp [refused] at scannedSome
      · exact lists id path active below
    case queue =>
      intro id active marked
      rw [(updateDocumentBase_spec done).2.2] at marked
      rcases List.mem_append.mp marked with old | new
      · exact old
      · obtain ⟨other, removed, same⟩ := List.mem_map.mp new
        obtain rfl := LiveMirrorOp.markDeleted.inj same
        cases scanned : (s.catalog.scan s.db stat (scanDirectories rules scans)).2 with
        | none => simp [scanned] at removed
        | some diff =>
            rw [scanned] at removed
            exact absurd removed (unmarked other active diff scanned)
    case database =>
      intro id active order flushed unflushed updated alone
      exact row_of_marks done (unmarked id active) updated alone

/-! ## An archive on an unreachable share -/

/-- One document of an archive. -/
def archived : Database :=
  { words := ∅, postings := ∅,
    docs := (∅ : SortedMap FileId DocRow).insert 0 ⟨"S:\\archive\\a.txt".toList, 0, 20, false⟩ }

theorem pathsUnique_archived : archived.PathsUnique := by
  have only : ∀ id row, archived.docs.find? id = some row → id = 0 := by
    intro id row found
    simp only [archived, SortedMap.find?_insert, SortedMap.find?_empty] at found
    split at found
    · rename_i same
      exact same.symm
    · cases found
  intro left right leftRow rightRow leftFound rightFound _
  rw [only left leftRow leftFound, only right rightRow rightFound]

/-- An index started on the archive. -/
def archiveStart (storage : CatalogStorage) : System :=
  (start storage archived true).get (by cases storage <;> decide)

theorem opened_archiveStart (storage : CatalogStorage) :
    start storage archived true = some (archiveStart storage) := (Option.some_get _).symm

/-- No exclusions; every file name is selected. -/
def everyFile : ScanRules := ⟨fun _ => false, fun _ => true⟩

/-- The root of the archive, which cannot be opened. -/
def unreachable : List RootScan := [⟨"S:\\archive".toList, none⟩]

/-- The archive's document is listed, then the enumeration breaks off. -/
def brokenOff : List RootScan :=
  [⟨"S:\\archive".toList, some (.file "S:\\archive\\a.txt".toList true (some 20) .failed)⟩]

/-- Every file is read as the document was. -/
def unchanged : Stat := fun _ => some ⟨0, 20⟩

/-- The state after the update. -/
def updated (storage : CatalogStorage) (scans : List RootScan) : System :=
  ((archiveStart storage).updateDocumentBase (scanDirectories everyFile scans) unchanged).getD
    (archiveStart storage)

theorem done_updated (storage : CatalogStorage) (scans : List RootScan) :
    (archiveStart storage).updateDocumentBase (scanDirectories everyFile scans) unchanged =
      some (updated storage scans) := by
  have runs : ((archiveStart storage).updateDocumentBase (scanDirectories everyFile scans)
      unchanged).isSome := by
    have idle : ((archiveStart storage).updating || !decide (archiveStart storage).Idle) = false := by
      cases storage <;> decide
    unfold updateDocumentBase
    rw [if_neg (by simp [idle])]
    dsimp only
    split
    · rfl
    · split <;> rfl
  obtain ⟨after, done⟩ := Option.isSome_iff_exists.mp runs
  rw [updated, done, Option.getD_some]

/-- The update leaves the archive alone. -/
def KeepsArchive (storage : CatalogStorage) (scans : List RootScan) : Prop :=
  ∀ scan ∈ scans, scan.completed everyFile = false →
    (archiveStart storage).KeepsBelow (updated storage scans) unchanged
      (scanDirectories everyFile scans) scan.root

/-- A share that could not be opened costs the archive its document, in either catalog. -/
theorem not_keepsArchive_unreachable :
    ¬ KeepsArchive .memory unreachable ∧ ¬ KeepsArchive .sqlite unreachable := by
  have lost : ∀ storage, ((archiveStart storage).catalog.scan (archiveStart storage).db unchanged
      (scanDirectories everyFile unreachable)).2 = some ⟨[], [], [0]⟩ ∧
        (archiveStart storage).catalog.document (archiveStart storage).db 0 =
          some ("S:\\archive\\a.txt".toList, false) := by
    intro storage
    cases storage <;> decide +kernel
  have broken : ∀ storage, ¬ KeepsArchive storage unreachable := by
    intro storage keeps
    obtain ⟨reported, active⟩ := lost storage
    have kept := keeps ⟨"S:\\archive".toList, none⟩ (by simp [unreachable]) rfl
    exact kept.reported _ reported 0 (by simp) ⟨_, active, by decide⟩
  exact ⟨broken .memory, broken .sqlite⟩

/-- An enumeration that broke off after the last document of the archive does no harm. -/
theorem keepsArchive_brokenOff : KeepsArchive .sqlite brokenOff := by
  refine (keepsBelow_iff .plain [] pathsUnique_archived (opened_archiveStart .sqlite) rfl everyFile
    brokenOff (done_updated .sqlite brokenOff)).mpr (.inr ?_)
  intro scan _ _ id path active _
  obtain ⟨index, -, opened⟩ := Option.map_eq_some_iff.mp (opened_archiveStart .sqlite)
  rw [← opened] at active
  obtain ⟨row, found, same⟩ := Option.map_eq_some_iff.mp active
  simp only [archived, SortedMap.find?_insert, SortedMap.find?_empty] at found
  split at found
  · obtain rfl := Option.some.inj found
    obtain ⟨rfl, -⟩ := Prod.mk.inj same
    decide
  · cases found

end System

end SearchEngine.Index
