import SearchEngine.Index.LiveCatalog
import SearchEngine.Index.NumberedSystem
import SearchEngine.Index.PartialScan
import SearchEngine.Index.UpdateRuns

/-!
# The scan after an update

The catalog in memory records a file when a scan sees it, the SQLite catalog when
its row is written, which only a batch with words does. A second scan of the same
list with the same metadata therefore reports nothing in the first case, and in the
second exactly the reported files again that could not be opened or hold no word.
-/

namespace SearchEngine.Index

open SearchEngine.Lib

/-- Deletion marks flag the rows of their files. -/
theorem row_applyAll_marks (records : FileId → Database.DocRecord) (ids : List FileId) (fileId : FileId) :
    (mirrorRules.applyAll records (ids.map .markDeleted) fileId).row =
      if fileId ∈ ids then (records fileId).row.map fun row => { row with deleted := true }
      else (records fileId).row := by
  induction ids generalizing records with
  | nil => rfl
  | cons id rest ih =>
      rw [List.map_cons, Coalescing.applyAll, List.foldl_cons, ← Coalescing.applyAll, ih,
        applyOp_markDeleted]
      by_cases same : fileId = id
      · subst same
        simp [Function.comp_def]
      · simp [same]

/-! ## The catalog in memory -/

namespace DocPaths

variable {paths : DocPaths} {stat : Stat} {scanned : List Path} {diff : CatalogDiff}

/-- The listed files are active with their metadata, every other entry is flagged. -/
structure Current (paths : DocPaths) (stat : Stat) (scanned : List Path) : Prop where
  listed : ∀ path ∈ scanned, ∃ info, paths.path2info.find? path = some info ∧ info.deleted = false ∧
    stat path = some info.metadata
  unlisted : ∀ path, path ∉ scanned → ∀ info, paths.path2info.find? path = some info →
    info.deleted = true

/-- A visit leaves the path active with the metadata it read. -/
theorem visitPath_current (paths : DocPaths) (pack : UpdatePack) (path : Path)
    (metadata : DocumentMetadata) :
    ∃ info, (paths.visitPath pack path metadata).1.path2info.find? path = some info ∧
      info.deleted = false ∧ info.metadata = metadata := by
  unfold visitPath
  cases found : paths.path2info.find? path with
  | none => exact ⟨⟨metadata, paths.nextId, false⟩, by simp [addNew], rfl, rfl⟩
  | some info =>
      dsimp only
      split
      · exact ⟨⟨metadata, info.id, false⟩, by simp, rfl, rfl⟩
      · rename_i same
        simp only [Bool.or_eq_true, decide_eq_true_eq, not_or, Bool.not_eq_true, not_not] at same
        exact ⟨info, found, same.1, same.2⟩

/-- The first loop of `getUpdate` leaves every listed file active with its metadata. -/
theorem visitPaths_current {visited : DocPaths} {pack result : UpdatePack}
    (done : visitPaths stat scanned paths pack = (visited, some result)) :
    ∀ path ∈ scanned, ∃ info, visited.path2info.find? path = some info ∧ info.deleted = false ∧
      stat path = some info.metadata := by
  induction scanned generalizing paths pack with
  | nil => exact fun _ member => by cases member
  | cons path rest ih =>
      unfold visitPaths at done
      cases read : stat path with
      | none =>
          rw [read] at done
          cases done
      | some metadata =>
          rw [read] at done
          intro other member
          by_cases later : other ∈ rest
          · exact ih done other later
          · obtain rfl : other = path := (List.mem_cons.mp member).resolve_right later
            obtain ⟨info, found, active, same⟩ := visitPath_current paths pack other metadata
            have kept := (visited_visitPaths stat rest (paths.visitPath pack other metadata).1
              (paths.visitPath pack other metadata).2).unlisted other later
            dsimp only at done
            rw [done] at kept
            exact ⟨info, kept.trans found, active, same ▸ read⟩

/-- The second loop of `getUpdate` flags its keys. -/
theorem flagged_of_mem (keys : List Path) (paths : DocPaths) {path : Path} (member : path ∈ keys)
    {info : FileInfo}
    (found : (keys.foldl (fun marked path =>
        ({ marked with path2info :=
            marked.path2info.modify path fun info => { info with deleted := true } } : DocPaths))
      paths).path2info.find? path = some info) : info.deleted = true := by
  induction keys generalizing paths with
  | nil => cases member
  | cons key rest ih =>
      rw [List.foldl_cons] at found
      by_cases later : path ∈ rest
      · exact ih _ later found
      · obtain rfl : path = key := (List.mem_cons.mp member).resolve_right later
        rw [find?_flagged rest _ later, SortedMap.find?_modify, if_pos rfl] at found
        obtain ⟨old, _, rfl⟩ := Option.map_eq_some_iff.mp found
        rfl

theorem current_scan (done : (paths.scan stat scanned).2 = some diff) :
    (paths.scan stat scanned).1.Current stat scanned := by
  unfold scan getUpdate at done ⊢
  rcases visitedEq : visitPaths stat scanned paths ⟨[], [], []⟩ with ⟨visited, result⟩
  rw [visitedEq] at done
  cases result with
  | none => cases done
  | some pack =>
      have active := visitPaths_current visitedEq
      have unseen : ∀ path, path ∈ (visited.unseen scanned).keys ↔
          ∃ info, visited.path2info.find? path = some info ∧ info.deleted = false ∧ path ∉ scanned := by
        intro path
        rw [SortedMap.mem_keys_iff]
        simp [DocPaths.unseen, SortedMap.find?_filter, Option.filter_eq_some_iff]
      constructor
      case listed =>
        intro path member
        have kept : path ∉ (visited.unseen scanned).keys := by
          intro flagged
          obtain ⟨_, _, _, absent⟩ := (unseen path).mp flagged
          exact absent member
        obtain ⟨info, found, facts⟩ := active path member
        exact ⟨info, (find?_flagged _ visited kept).trans found, facts⟩
      case unlisted =>
        intro path absent info found
        by_cases flagged : path ∈ (visited.unseen scanned).keys
        · exact flagged_of_mem _ visited flagged found
        · rw [find?_flagged _ visited flagged] at found
          by_contra kept
          exact flagged ((unseen path).mpr ⟨info, found, by simpa using kept, absent⟩)

/-- Marking the numbers of unlisted files keeps the entries current. -/
theorem Current.markRemoved (current : paths.Current stat scanned) {id : FileId}
    (apart : ∀ path ∈ scanned, paths.id2path[id]?.join ≠ some path) :
    (paths.markRemoved id).Current stat scanned := by
  unfold DocPaths.markRemoved
  split
  · exact current
  rename_i marked leads
  constructor
  case listed =>
    intro path member
    have different : marked ≠ path := fun same => apart path member (leads.trans (congrArg some same))
    obtain ⟨info, found, facts⟩ := current.listed path member
    exact ⟨info, by rw [SortedMap.find?_modify, if_neg different, found], facts⟩
  case unlisted =>
    intro path absent info found
    rw [SortedMap.find?_modify] at found
    split at found
    · obtain ⟨old, _, rfl⟩ := Option.map_eq_some_iff.mp found
      rfl
    · exact current.unlisted path absent info found

theorem Current.foldl_markRemoved (current : paths.Current stat scanned) {ids : List FileId}
    (apart : ∀ id ∈ ids, ∀ path ∈ scanned, paths.id2path[id]?.join ≠ some path) :
    (ids.foldl DocPaths.markRemoved paths).Current stat scanned := by
  induction ids generalizing paths with
  | nil => exact current
  | cons id rest ih =>
      have numbers : (paths.markRemoved id).id2path = paths.id2path := by
        unfold DocPaths.markRemoved
        split <;> rfl
      apply ih (current.markRemoved (apart id List.mem_cons_self))
      intro other member
      rw [numbers]
      exact apart other (List.mem_cons_of_mem _ member)

/-- The numbers a scan removes belong to unlisted paths. -/
theorem apart_of_mem_removed (wellFormed : paths.WellFormed)
    (done : (paths.scan stat scanned).2 = some diff) {id : FileId} (removed : id ∈ diff.removed) :
    ∀ path ∈ scanned, (paths.scan stat scanned).1.id2path[id]?.join ≠ some path := by
  obtain ⟨other, info, found, rfl, _, absent⟩ := (mem_removed_iff done).mp removed
  obtain ⟨more, numbers⟩ := scan_id2path paths stat scanned
  have leads := wellFormed other info found
  have bound := (List.getElem?_eq_some_iff.mp leads).1
  intro path member same
  rw [numbers, List.getElem?_append_left bound, leads] at same
  exact absent (Option.some.inj same ▸ member)

/-- A scan of current entries reports nothing. -/
theorem scan_of_current (current : paths.Current stat scanned) :
    (paths.scan stat scanned).2 = some ⟨[], [], []⟩ := by
  have visited : visitPaths stat scanned paths ⟨[], [], []⟩ = (paths, some ⟨[], [], []⟩) :=
    visitPaths_of_current current.listed _
  have seen : (paths.unseen scanned).entries = [] := by
    refine List.eq_nil_iff_forall_not_mem.mpr fun entry member => ?_
    have left := SortedMap.mem_entries_iff.mp member
    rw [unseen, SortedMap.find?_filter, Option.filter_eq_some_iff] at left
    simp only [Bool.and_eq_true, Bool.not_eq_true', decide_eq_true_eq] at left
    have flagged := current.unlisted entry.1 left.2.2 entry.2 left.1
    rw [left.2.1] at flagged
    cases flagged
  simp [scan, getUpdate, visited, seen, scanItems]

end DocPaths

/-! ## The catalog in the database -/

namespace SQLiteCatalog

variable {catalog final : SQLiteCatalog} {db after : Database} {stat : Stat} {scanned : List Path}
  {indexed : Path → Bool} {diff : CatalogDiff} {nextId : FileId}

/-- What an update did to the rows: those of the indexed files are written, those of the
removed files flagged. -/
structure Rewritten (db after : Database) (scanned : List Path) (indexed : Path → Bool)
    (diff : CatalogDiff) : Prop where
  reported : ∀ item ∈ diff.added ++ diff.updated, ∀ path, scanned[item.pathIndex]? = some path →
    after.docs.find? item.id =
      if indexed path then some ⟨path, item.metadata.mtimeTicks, item.metadata.size, false⟩
      else db.docs.find? item.id
  others : ∀ fileId, fileId ∉ (diff.added ++ diff.updated).map CatalogScanItem.id →
    after.docs.find? fileId =
      if fileId ∈ diff.removed then (db.docs.find? fileId).map fun row => { row with deleted := true }
      else db.docs.find? fileId

/-- What a scan of `db` reported, with the numbers below the next free one. -/
structure ScannedFrom (db : Database) (stat : Stat) (scanned : List Path) (nextId : FileId)
    (diff : CatalogDiff) : Prop where
  unique : db.PathsUnique
  below : ∀ id row, db.docs.find? id = some row → id < nextId
  spec : Reported db stat scanned.zipIdx nextId { diff with removed := [] }
  removed : ∀ id, id ∈ diff.removed ↔
    ∃ row, db.docs.find? id = some row ∧ row.deleted = false ∧ row.path ∉ scanned

theorem scannedFrom_of_scan (unique : db.PathsUnique)
    (below : ∀ id row, db.docs.find? id = some row → id < catalog.nextId)
    (done : (catalog.scan db stat scanned).2 = some diff) :
    ScannedFrom db stat scanned catalog.nextId diff :=
  ⟨unique, below, (scan_of_some done).2.1, fun _ => mem_removed_iff unique below done⟩

namespace ScannedFrom

variable (origin : ScannedFrom db stat scanned nextId diff)
include origin

/-- An added file has a number without a row. -/
theorem fresh {item : CatalogScanItem} (member : item ∈ diff.added) : db.docs.find? item.id = none := by
  have numbers : diff.added.map CatalogScanItem.id = List.range' nextId diff.added.length :=
    origin.spec.numbers
  have listed : item.id ∈ List.range' nextId diff.added.length := numbers ▸ List.mem_map_of_mem member
  cases found : db.docs.find? item.id with
  | none => rfl
  | some row => exact absurd (origin.below _ _ found) (not_lt.mpr (List.mem_range'_1.mp listed).1)

/-- A reported file is listed; if its number has a row, the row is that of the listed path. -/
theorem place {item : CatalogScanItem} (member : item ∈ diff.added ++ diff.updated) :
    ∃ path, scanned[item.pathIndex]? = some path ∧ stat path = some item.metadata ∧
      ∀ row, db.docs.find? item.id = some row → row.path = path ∧
        ∃ record, db.findByPath path = some record ∧ record.id = item.id ∧
          differs record item.metadata = true := by
  rcases List.mem_append.mp member with added | updated
  · obtain ⟨path, here, _, read⟩ := origin.spec.of_added added
    refine ⟨path, here, read, fun row found => ?_⟩
    rw [origin.fresh added] at found
    cases found
  · obtain ⟨path, record, here, found, sameId, read, changed⟩ := origin.spec.of_updated updated
    refine ⟨path, here, read, fun row stored => ⟨?_, record, found, sameId, changed⟩⟩
    obtain ⟨recorded, -⟩ := Database.findByPath_spec found
    rw [sameId, stored] at recorded
    rw [Option.some.inj recorded]

/-- The reported file at a listed path. -/
theorem item_of {path : Path} {index : Nat} {metadata : DocumentMetadata}
    (here : scanned[index]? = some path) (read : stat path = some metadata)
    (changed : db.findByPath path = none ∨
      ∃ record, db.findByPath path = some record ∧ differs record metadata = true) :
    ∃ item ∈ diff.added ++ diff.updated, item.pathIndex = index ∧ item.metadata = metadata := by
  have entry : (path, index) ∈ scanned.zipIdx := List.mk_mem_zipIdx_iff_getElem?.mpr here
  rcases changed with missing | ⟨record, found, differ⟩
  · have listed : (index, metadata) ∈ scanned.zipIdx.filterMap (addedAt db stat) :=
      List.mem_filterMap.mpr ⟨_, entry, by simp [addedAt, missing, read]⟩
    have added := origin.spec.added
    rw [← added] at listed
    obtain ⟨item, member, same⟩ := List.mem_map.mp listed
    obtain ⟨sameIndex, sameMetadata⟩ := Prod.mk.inj same
    exact ⟨item, List.mem_append_left _ member, sameIndex, sameMetadata⟩
  · have listed : (⟨record.id, index, metadata⟩ : CatalogScanItem) ∈ diff.updated := by
      have updated := origin.spec.updated
      change diff.updated = _ at updated
      rw [updated]
      exact List.mem_filterMap.mpr ⟨_, entry, by simp [updatedAt, found, read, differ]⟩
    exact ⟨_, List.mem_append_right _ listed, rfl, rfl⟩

variable (rewritten : Rewritten db after scanned indexed diff)
include rewritten

/-- A reported file that was indexed is found with its metadata. -/
theorem findByPath_indexed (afterUnique : after.PathsUnique) {path : Path} {index : Nat}
    {metadata : DocumentMetadata} (here : scanned[index]? = some path) (read : stat path = some metadata)
    (changed : db.findByPath path = none ∨
      ∃ record, db.findByPath path = some record ∧ differs record metadata = true)
    (written : indexed path = true) :
    ∃ id, after.findByPath path = some ⟨id, path, metadata, false⟩ := by
  obtain ⟨item, member, rfl, rfl⟩ := origin.item_of here read changed
  have row := rewritten.reported item member path here
  rw [if_pos written] at row
  exact ⟨item.id, Database.findByPath_of_row afterUnique row⟩

/-- A row stands where the file is up to date or was not indexed. -/
theorem findByPath_kept (afterUnique : after.PathsUnique) {path : Path} {index : Nat}
    {metadata : DocumentMetadata} {record : DocumentRecord} (here : scanned[index]? = some path)
    (read : stat path = some metadata)
    (found : db.findByPath path = some record)
    (left : differs record metadata = false ∨ indexed path = false) :
    after.findByPath path = some record := by
  obtain ⟨stored, samePath⟩ := Database.findByPath_spec found
  have row : after.docs.find? record.id = db.docs.find? record.id := by
    by_cases reported : record.id ∈ (diff.added ++ diff.updated).map CatalogScanItem.id
    · obtain ⟨item, member, sameId⟩ := List.mem_map.mp reported
      obtain ⟨other, there, otherRead, rows⟩ := origin.place member
      obtain ⟨otherPath, otherRecord, otherFound, _, changed⟩ := rows _ (sameId ▸ stored)
      obtain rfl : path = other := otherPath
      obtain rfl : otherRecord = record := Option.some.inj (otherFound.symm.trans found)
      obtain rfl : item.metadata = metadata := Option.some.inj (otherRead.symm.trans read)
      have unwritten : indexed path = false := left.resolve_left (by simp [changed])
      have kept := rewritten.reported item member path there
      rwa [if_neg (by simp [unwritten]), sameId] at kept
    · rw [rewritten.others record.id reported, if_neg]
      intro removed
      obtain ⟨old, oldStored, _, absent⟩ := (origin.removed record.id).mp removed
      rw [stored] at oldStored
      rw [← Option.some.inj oldStored] at absent
      exact absent (List.mem_of_getElem? here)
  have later := Database.findByPath_of_row afterUnique (row.trans stored)
  obtain ⟨id, recordPath, recorded, deleted⟩ := record
  obtain rfl : recordPath = path := samePath
  exact later

/-- A new file that was not indexed still has no row. -/
theorem findByPath_missing {path : Path} (missing : db.findByPath path = none)
    (unwritten : indexed path = false) : after.findByPath path = none := by
  have rowless : ∀ id row, db.docs.find? id = some row → row.path ≠ path := by
    rintro id row stored rfl
    have present := Database.isSome_findByPath stored
    rw [missing] at present
    cases present
  by_contra present
  obtain ⟨record, found⟩ := Option.ne_none_iff_exists'.mp present
  obtain ⟨stored, -⟩ := Database.findByPath_spec found
  by_cases reported : record.id ∈ (diff.added ++ diff.updated).map CatalogScanItem.id
  · obtain ⟨item, member, sameId⟩ := List.mem_map.mp reported
    obtain ⟨other, there, -, -⟩ := origin.place member
    have row := rewritten.reported item member other there
    rw [sameId, stored] at row
    split at row
    · rename_i written
      have same : path = other := congrArg DocRow.path (Option.some.inj row)
      rw [← same, unwritten] at written
      cases written
    · exact rowless _ _ row.symm rfl
  · have row := rewritten.others record.id reported
    rw [stored] at row
    split at row
    · obtain ⟨old, oldStored, same⟩ := Option.map_eq_some_iff.mp row.symm
      exact rowless _ old oldStored (congrArg DocRow.path same)
    · exact rowless _ _ row.symm rfl

/-- The row of a file that is not flagged has a listed path. -/
theorem listed_of_row {id : FileId} {row : DocRow} (stored : after.docs.find? id = some row)
    (active : row.deleted = false) : row.path ∈ scanned := by
  by_cases reported : id ∈ (diff.added ++ diff.updated).map CatalogScanItem.id
  · obtain ⟨item, member, rfl⟩ := List.mem_map.mp reported
    obtain ⟨path, here, _, rows⟩ := origin.place member
    have written := rewritten.reported item member path here
    rw [stored] at written
    split at written
    · rw [Option.some.inj written]
      exact List.mem_of_getElem? here
    · rw [(rows row written.symm).1]
      exact List.mem_of_getElem? here
  · have kept := rewritten.others id reported
    rw [stored] at kept
    split at kept
    · obtain ⟨old, _, same⟩ := Option.map_eq_some_iff.mp kept.symm
      rw [← same] at active
      cases active
    · rename_i unremoved
      by_contra absent
      exact unremoved ((origin.removed id).mpr ⟨row, kept.symm, active, absent⟩)

/-- A listed file was indexed with its metadata, or is found as before. -/
theorem findByPath_after (afterUnique : after.PathsUnique) {path : Path} {index : Nat}
    {metadata : DocumentMetadata} (here : scanned[index]? = some path) (read : stat path = some metadata) :
    (indexed path = true ∧ ∃ id, after.findByPath path = some ⟨id, path, metadata, false⟩) ∨
      after.findByPath path = db.findByPath path ∧ (indexed path = false ∨
        ∃ record, db.findByPath path = some record ∧ differs record metadata = false) := by
  cases found : db.findByPath path with
  | none =>
      cases written : indexed path with
      | false => exact .inr ⟨origin.findByPath_missing rewritten found written, .inl rfl⟩
      | true =>
          have later := origin.findByPath_indexed rewritten afterUnique here read (.inl found) written
          exact .inl ⟨rfl, later⟩
  | some record =>
      by_cases kept : differs record metadata = false ∨ indexed path = false
      · have later := origin.findByPath_kept rewritten afterUnique here read found kept
        exact .inr ⟨later, kept.symm.imp_right fun same => ⟨record, rfl, same⟩⟩
      · simp only [not_or, Bool.not_eq_false] at kept
        exact .inl ⟨kept.2, origin.findByPath_indexed rewritten afterUnique here read
          (.inr ⟨record, found, kept.1⟩) kept.2⟩

/-- The second scan reports a changed file again where it was not indexed. -/
theorem updatedAt_after (afterUnique : after.PathsUnique) {path : Path} {index : Nat}
    {metadata : DocumentMetadata} (here : scanned[index]? = some path) (read : stat path = some metadata) :
    updatedAt after stat (path, index) = (updatedAt db stat (path, index)).filter
      fun item => !indexed (scanned.getD item.pathIndex []) := by
  rcases origin.findByPath_after rewritten afterUnique here read with
    ⟨written, id, later⟩ | ⟨later, unwritten | ⟨record, found, same⟩⟩
  · have same : differs ⟨id, path, metadata, false⟩ metadata = false := by simp [differs]
    rw [updatedAt, later]
    cases found : db.findByPath path with
    | none => simp [updatedAt, found, read, same]
    | some record =>
        by_cases changed : differs record metadata = true <;>
          simp [updatedAt, found, read, same, changed, Option.filter_some, here, written]
  · rw [updatedAt, later]
    cases found : db.findByPath path with
    | none => simp [updatedAt, found]
    | some record =>
        by_cases changed : differs record metadata = true <;>
          simp [updatedAt, found, read, changed, Option.filter_some, here, unwritten]
  · simp [updatedAt, later, found, read, same]

/-- The second scan reports a new file again where it was not indexed. -/
theorem addedAt_after (afterUnique : after.PathsUnique) {path : Path} {index : Nat}
    {metadata : DocumentMetadata} (here : scanned[index]? = some path) (read : stat path = some metadata) :
    addedAt after stat (path, index) = (addedAt db stat (path, index)).filter
      fun place => !indexed (scanned.getD place.1 []) := by
  rcases origin.findByPath_after rewritten afterUnique here read with
    ⟨written, id, later⟩ | ⟨later, unwritten | ⟨record, found, -⟩⟩
  · cases found : db.findByPath path <;>
      simp [addedAt, found, later, read, Option.filter_some, here, written]
  · cases found : db.findByPath path <;>
      simp [addedAt, found, later, read, Option.filter_some, here, unwritten]
  · simp [addedAt, later, found]

/-- A second scan reports the files again that were not indexed, and nothing else. -/
theorem rescan (afterUnique : after.PathsUnique) (distinct : scanned.Nodup) :
    ∃ again, (final.scan after stat scanned).2 = some again ∧ again.removed = [] ∧
      again.updated = diff.updated.filter (fun item => !indexed (scanned.getD item.pathIndex [])) ∧
      again.added.map (fun item => (item.pathIndex, item.metadata)) =
        (diff.added.filter fun item => !indexed (scanned.getD item.pathIndex [])).map
          fun item => (item.pathIndex, item.metadata) := by
  have readable : ∀ entry ∈ scanned.zipIdx, (stat entry.1).isSome := origin.spec.readable
  have scans : (final.scan after stat scanned).2 ≠ none := by
    rw [Ne, scan_eq_none_iff, not_or, not_not]
    refine ⟨?_, distinct⟩
    rintro ⟨path, member, unreadable⟩
    rw [← List.zipIdx_map_fst 0 scanned] at member
    obtain ⟨entry, inZip, rfl⟩ := List.mem_map.mp member
    have read := readable entry inZip
    rw [unreadable] at read
    cases read
  obtain ⟨again, done⟩ := Option.ne_none_iff_exists'.mp scans
  obtain ⟨_, spec, removed, _⟩ := scan_of_some done
  refine ⟨again, done, ?_, ?_, ?_⟩
  · rw [removed, List.map_eq_nil_iff, List.filter_eq_nil_iff]
    intro entry member kept
    simp only [Bool.and_eq_true, Bool.not_eq_true', decide_eq_true_eq, List.mem_append, not_or] at kept
    have stored := SortedMap.mem_entries_iff.mp member
    have located := Database.findByPath_of_row afterUnique stored
    have inList := origin.listed_of_row rewritten stored kept.1
    exact kept.2.2 (List.mem_filterMap.mpr ⟨entry.2.path, inList, by rw [located]; rfl⟩)
  · have updated : again.updated = scanned.zipIdx.filterMap (updatedAt after stat) := spec.updated
    have before : diff.updated = scanned.zipIdx.filterMap (updatedAt db stat) := origin.spec.updated
    rw [updated, before, List.filter_filterMap]
    apply List.filterMap_congr
    rintro ⟨path, index⟩ entry
    obtain ⟨metadata, read⟩ := Option.isSome_iff_exists.mp (readable _ entry)
    exact origin.updatedAt_after rewritten afterUnique (List.mk_mem_zipIdx_iff_getElem?.mp entry) read
  · have added : again.added.map (fun item => (item.pathIndex, item.metadata)) =
        scanned.zipIdx.filterMap (addedAt after stat) := spec.added
    have before : diff.added.map (fun item => (item.pathIndex, item.metadata)) =
        scanned.zipIdx.filterMap (addedAt db stat) := origin.spec.added
    have selected : (diff.added.filter fun item => !indexed (scanned.getD item.pathIndex [])).map
          (fun item => (item.pathIndex, item.metadata)) =
        (diff.added.map fun item => (item.pathIndex, item.metadata)).filter
          fun place => !indexed (scanned.getD place.1 []) := by
      rw [List.filter_map]
      rfl
    rw [added, selected, before, List.filter_filterMap]
    apply List.filterMap_congr
    rintro ⟨path, index⟩ entry
    obtain ⟨metadata, read⟩ := Option.isSome_iff_exists.mp (readable _ entry)
    exact origin.addedAt_after rewritten afterUnique (List.mk_mem_zipIdx_iff_getElem?.mp entry) read

end ScannedFrom

end SQLiteCatalog

/-! ## Updates -/

namespace System

variable {oem : OemTable} {contents : Path → Option (List Byte)} {listed : List Path} {stat : Stat}
  {s dispatched complete final : System} {schedule : List Action} {order : IterationOrder}
  {diff : CatalogDiff} {history : History}

/-- Every number is below the next free one, and paths are unique, when the update has ended. -/
theorem UpdateRun.numbered (update : UpdateRun oem contents listed stat s dispatched complete final
    schedule order) (numbered : s.Numbered) : final.Numbered := by
  have dispatches : s.step oem (.updateDocumentBase listed stat) = some dispatched := update.dispatches
  have finishes : complete.step oem (.finishUpdate order) = some final := update.finishes
  exact ((numbered.step dispatches).run update.runs).step finishes

/-- The rows an update on a drained queue leaves. -/
theorem UpdateRun.rewritten (update : UpdateRun oem contents listed stat s dispatched complete final
      schedule order) (coherent : s.Coherent history) (distinct : listed.Nodup)
    (drained : s.queue = []) (scanned : (s.catalog.scan s.db stat listed).2 = some diff)
    {nextId : FileId} (origin : SQLiteCatalog.ScannedFrom s.db stat listed nextId diff) :
    SQLiteCatalog.Rewritten s.db final.db listed (fun path => Indexed oem (contents path)) diff := by
  obtain ⟨indexed, others, -⟩ := update.results coherent distinct scanned
  obtain ⟨sameDb, -, queue⟩ := updateDocumentBase_spec update.dispatches
  have rows : ∀ fileId, (dispatched.mirrorRecords fileId).row =
      if fileId ∈ diff.removed then
        (s.db.docs.find? fileId).map fun row => { row with deleted := true }
      else s.db.docs.find? fileId := by
    intro fileId
    rw [mirrorRecords, sameDb, queue, drained, scanned, List.nil_append, Option.elim_some,
      row_applyAll_marks]
    rfl
  constructor
  case reported =>
    intro item member path here
    have written := (indexed (scanTask listed item) (List.mem_map_of_mem member)).2
    have samePath : (scanTask listed item).path = path := by
      rw [scanTask, List.getD_eq_getElem?_getD, here, Option.getD_some]
    have unremoved : item.id ∉ diff.removed := by
      intro removed
      obtain ⟨row, stored, _, absent⟩ := (origin.removed item.id).mp removed
      obtain ⟨other, there, _, located⟩ := origin.place member
      rw [(located row stored).1] at absent
      exact absent (List.mem_of_getElem? there)
    rw [rows, samePath, if_neg (show (scanTask listed item).fileId ∉ diff.removed from unremoved)]
      at written
    rw [IndexingTask.row, samePath] at written
    exact written
  case others =>
    intro fileId absent
    rw [(others fileId (map_fileId_updateTasks listed diff ▸ absent)).2, rows]

/-- A scan right after a completed update of the same list with the same metadata removes nothing.
The catalog in memory reports nothing at all; the SQLite catalog reports again exactly the files
that could not be opened or hold no word, the new ones under new numbers. -/
theorem rescan_of_update {storage : CatalogStorage} {db : Database} {precountPostings : Bool}
    {opened : System} {actions : List Action} (resolves : db.PostingsResolve)
    (unique : db.PathsUnique) (started : start storage db precountPostings = some opened)
    (tame : (machine oem).Conforms Tame opened actions)
    (reached : (machine oem).run opened actions = some s) (distinct : listed.Nodup)
    (drained : s.queue = [])
    (update : UpdateRun oem contents listed stat s dispatched complete final schedule order)
    (scanned : (s.catalog.scan s.db stat listed).2 = some diff) :
    ∃ again, (final.catalog.scan final.db stat listed).2 = some again ∧ again.removed = [] ∧
      match s.catalog with
      | .memory _ => again.added = [] ∧ again.updated = []
      | .sqlite _ =>
          again.updated =
              diff.updated.filter (fun item => !Indexed oem (contents (listed.getD item.pathIndex []))) ∧
            again.added.map (fun item => (item.pathIndex, item.metadata)) =
              (diff.added.filter fun item =>
                !Indexed oem (contents (listed.getD item.pathIndex []))).map
                  fun item => (item.pathIndex, item.metadata) := by
  obtain ⟨history, coherent⟩ := coherent_of_run resolves started tame reached
  have numbered := (numbered_start unique started).run reached
  have numberedAfter := update.numbered numbered
  obtain ⟨-, -, kept⟩ := update.results coherent distinct scanned
  obtain ⟨-, catalog, -⟩ := updateDocumentBase_spec update.dispatches
  rw [scanned, Option.elim_some] at catalog
  cases before : s.catalog with
  | memory paths =>
      have wellFormed : paths.WellFormed := by
        have numbers := numbered.numbers
        rwa [before] at numbers
      rw [before, DocumentCatalog.scan] at scanned
      have current := (DocPaths.current_scan scanned).foldl_markRemoved
        fun id removed => DocPaths.apart_of_mem_removed wellFormed scanned removed
      rw [kept, catalog, before, DocumentCatalog.scan, DocumentCatalog.foldl_markRemoved_memory]
      exact ⟨⟨[], [], []⟩, DocPaths.scan_of_current current, rfl, rfl, rfl⟩
  | sqlite state =>
      have below : ∀ id row, s.db.docs.find? id = some row → id < state.nextId := by
        have numbers := numbered.numbers
        rw [before] at numbers
        exact numbers.2
      have reported : (state.scan s.db stat listed).2 = some diff := by
        rwa [before, DocumentCatalog.scan] at scanned
      have origin := SQLiteCatalog.scannedFrom_of_scan numbered.unique below reported
      have rewritten := update.rewritten coherent distinct drained scanned origin
      rw [kept, catalog, before, DocumentCatalog.scan, DocumentCatalog.foldl_markRemoved_sqlite]
      exact origin.rescan rewritten numberedAfter.unique distinct

/-- The file that could not be opened is reported again, the other is not. -/
theorem rescan_of_update_twoFiles :
    ∃ again, (twoFilesFinal.catalog.scan twoFilesFinal.db twoStats twoPaths).2 = some again ∧
      again.removed = [] ∧ again.updated = [] ∧
        again.added.map (fun item => (item.pathIndex, item.metadata)) = [(1, ⟨1, 7⟩)] := by
  have scanned : (emptyStart.catalog.scan emptyStart.db twoStats twoPaths).2 =
      some ⟨[⟨0, 0, ⟨1, 7⟩⟩, ⟨1, 1, ⟨1, 7⟩⟩], [], []⟩ := by decide +kernel
  have tame : (machine .plain).Conforms Tame emptyStart [] := trivial
  obtain ⟨again, done, removed, outcome⟩ := rescan_of_update postingsResolve_empty
    (fun _ _ _ _ stored => by cases stored) started_emptyStart tame rfl (by decide)
    (by decide +kernel) updateRun_twoFiles scanned
  have catalog : emptyStart.catalog = .sqlite (.opened .empty) := by decide +kernel
  rw [catalog] at outcome
  exact ⟨again, done, removed, outcome.1.trans rfl, outcome.2.trans (by decide +kernel)⟩

end System

end SearchEngine.Index
