import SearchEngine.Index.SystemInvariant

/-!
# Paths and their numbers

`PathsAgree` says that a catalog gives distinct paths distinct numbers and that
the rows of `docs` carry the numbers the catalog knows. A point update, a
persisted batch and a deletion keep it and change the standing of one path only:
its number, the flag of its record and the flag queries see.
-/

namespace SearchEngine.Index

open SearchEngine.Lib

namespace Database

variable {db : Database}

/-- With unique paths a row is the one found under its path. -/
theorem findByPath_of_row (unique : db.PathsUnique) {fileId : FileId} {row : DocRow}
    (found : db.docs.find? fileId = some row) :
    db.findByPath row.path =
      some ⟨fileId, row.path, ⟨row.mtimeTicks, row.size⟩, row.deleted⟩ := by
  obtain ⟨record, located⟩ := Option.isSome_iff_exists.mp (isSome_findByPath found)
  obtain ⟨stored, samePath⟩ := findByPath_spec located
  obtain rfl : record.id = fileId := unique record.id fileId _ row stored found rfl
  rw [found] at stored
  have sameRow := Option.some.inj stored
  rw [located]
  obtain ⟨id, path, ⟨mtimeTicks, size⟩, deleted⟩ := record
  simp only at samePath sameRow
  rw [sameRow, samePath]

/-- A path is found alike in databases that store the same rows under it. -/
theorem findByPath_congr {after : Database} (afterUnique : after.PathsUnique)
    {path : Path} (sameRows : ∀ fileId row, row.path = path →
      (db.docs.find? fileId = some row ↔ after.docs.find? fileId = some row)) :
    after.findByPath path = db.findByPath path := by
  cases located : db.findByPath path with
  | some record =>
      obtain ⟨stored, samePath⟩ := findByPath_spec located
      have kept := findByPath_of_row afterUnique ((sameRows _ _ rfl).mp stored)
      obtain ⟨id, recordPath, ⟨mtimeTicks, size⟩, deleted⟩ := record
      obtain rfl : recordPath = path := samePath
      exact kept
  | none =>
      by_contra present
      obtain ⟨record, found⟩ := Option.ne_none_iff_exists'.mp present
      have stored := (sameRows _ _ rfl).mpr (findByPath_spec found).1
      have old := isSome_findByPath stored
      rw [located] at old
      cases old

/-- The row of a document is flagged as deleted. -/
def rowDeleted (db : Database) (fileId : FileId) : Bool := (db.docs.find? fileId).any DocRow.deleted

end Database

namespace DocumentCatalog

/-- No point update of the path waits for its `docs` row. -/
def Persisted (catalog : DocumentCatalog) (path : Path) : Prop :=
  match catalog with
  | memory _ => True
  | sqlite state => state.pending.find? path = none

instance (catalog : DocumentCatalog) (path : Path) : Decidable (catalog.Persisted path) :=
  match catalog with
  | memory _ => isTrue trivial
  | sqlite state => inferInstanceAs (Decidable (state.pending.find? path = none))

/-- The number of a path, the flag of its record and the flag queries see. -/
def standing (catalog : DocumentCatalog) (db : Database) (path : Path) : Option (FileId × Bool × Bool) :=
  (catalog.findByPath db path).map fun record =>
    (record.id, record.deleted, catalog.isDeleted db record.id)

/-- Catalog and database name the documents alike. -/
structure PathsAgree (catalog : DocumentCatalog) (db : Database) : Prop where
  unique : db.PathsUnique
  numbers : catalog.NumbersBelow db
  injective : ∀ left right leftRecord rightRecord, catalog.findByPath db left = some leftRecord →
    catalog.findByPath db right = some rightRecord → leftRecord.id = rightRecord.id → left = right
  rows : ∀ fileId row, db.docs.find? fileId = some row →
    ∃ record, catalog.findByPath db row.path = some record ∧ record.id = fileId

variable {catalog : DocumentCatalog} {db after : Database}

/-- A memory catalog flags the record that queries see. -/
theorem isDeleted_memory {paths : DocPaths} (wellFormed : paths.WellFormed) {path : Path}
    {info : FileInfo} (found : paths.path2info.find? path = some info) :
    paths.isDeleted info.id = info.deleted := by
  have located := wellFormed path info found
  simp [DocPaths.isDeleted, DocPaths.infoById, located, found]

/-- In a memory catalog both flags of a standing agree. -/
theorem standing_memory {paths : DocPaths} (wellFormed : paths.WellFormed) (db : Database)
    (path : Path) :
    (memory paths).standing db path =
      (paths.path2info.find? path).map fun info => (info.id, info.deleted, info.deleted) := by
  have record : (memory paths).findByPath db path = (paths.path2info.find? path).map fun info =>
      ⟨info.id, path, info.metadata, info.deleted⟩ := rfl
  rw [standing, record]
  cases found : paths.path2info.find? path with
  | none => rfl
  | some info =>
      have flag : (memory paths).isDeleted db info.id = info.deleted := isDeleted_memory wellFormed found
      rw [Option.map_some, Option.map_some, Option.map_some, flag]

/-! ## Point updates -/

/-- What `upsert` does to the records of the paths. -/
theorem findByPath_upsert (catalog : DocumentCatalog) (db : Database) (path : Path)
    (metadata : DocumentMetadata) :
    ∃ record, (catalog.upsert db path metadata).1.findByPath db path = some record ∧
      record.id = (catalog.upsert db path metadata).2.1 ∧ record.deleted = false ∧
      (∀ old, catalog.findByPath db path = some old → old.id = record.id) ∧
      (catalog.findByPath db path = none → record.id = catalog.nextId) ∧
      ∀ other, other ≠ path →
        (catalog.upsert db path metadata).1.findByPath db other = catalog.findByPath db other := by
  cases catalog with
  | memory paths =>
      simp only [upsert, findByPath, DocPaths.upsert, DocPaths.findByPath]
      cases found : paths.path2info.find? path with
      | none =>
          refine ⟨⟨paths.nextId, path, metadata, false⟩, by simp [DocPaths.addNew], rfl, rfl, by simp,
            fun _ => rfl, ?_⟩
          intro other different
          simp [DocPaths.addNew, Ne.symm different]
      | some info =>
          dsimp only
          split
          · refine ⟨⟨info.id, path, metadata, false⟩, by simp, rfl, rfl, by simp, by simp, ?_⟩
            intro other different
            simp [Ne.symm different]
          · rename_i same
            have active : info.deleted = false := by
              simp only [Bool.or_eq_true, not_or, Bool.not_eq_true] at same
              exact same.1
            refine ⟨⟨info.id, path, info.metadata, info.deleted⟩, by simp [found], rfl, active,
              by simp, by simp, fun _ _ => rfl⟩
  | sqlite state =>
      simp only [upsert, findByPath, SQLiteCatalog.upsert]
      cases waiting : state.pending.find? path with
      | some record =>
          refine ⟨{ record with metadata := metadata, deleted := false }, by simp, rfl, rfl, by simp,
            by simp, ?_⟩
          intro other different
          simp [Ne.symm different]
      | none =>
          cases stored : db.findByPath path with
          | some record =>
              dsimp only
              split
              · refine ⟨{ record with metadata := metadata, deleted := false }, by simp, rfl, rfl,
                  by simp, by simp, ?_⟩
                intro other different
                simp [Ne.symm different]
              · rename_i same
                have active : record.deleted = false := by
                  simp only [SQLiteCatalog.differs, Bool.or_eq_true, not_or, Bool.not_eq_true] at same
                  exact same.1
                exact ⟨record, by simp [waiting], rfl, active, by simp, by simp, fun _ _ => rfl⟩
          | none =>
              refine ⟨⟨state.nextId, path, metadata, false⟩, by simp, rfl, rfl, by simp, fun _ => rfl, ?_⟩
              intro other different
              simp [Ne.symm different]

/-- The record an update leaves has the metadata of the file. -/
theorem metadata_upsert (catalog : DocumentCatalog) (db : Database) (path : Path)
    (metadata : DocumentMetadata) {record : DocumentRecord}
    (found : (catalog.upsert db path metadata).1.findByPath db path = some record) :
    record.metadata = metadata := by
  cases catalog with
  | memory paths =>
      simp only [upsert, findByPath, DocPaths.upsert, DocPaths.findByPath] at found
      cases stored : paths.path2info.find? path with
      | none =>
          simp only [stored, DocPaths.addNew, SortedMap.find?_insert, if_true, Option.map_some] at found
          rw [← Option.some.inj found]
      | some info =>
          simp only [stored] at found
          split at found
          · simp only [SortedMap.find?_insert, if_true, Option.map_some] at found
            rw [← Option.some.inj found]
          · rename_i same
            simp only [Bool.or_eq_true, decide_eq_true_eq, not_or, not_not] at same
            rw [stored, Option.map_some] at found
            rw [← Option.some.inj found]
            exact same.2
  | sqlite state =>
      simp only [upsert, findByPath, SQLiteCatalog.upsert] at found
      cases waiting : state.pending.find? path with
      | some pending =>
          simp only [waiting, SortedMap.find?_insert, if_true, Option.some_or] at found
          rw [← Option.some.inj found]
      | none =>
          cases stored : db.findByPath path with
          | none =>
              simp only [waiting, stored, SortedMap.find?_insert, if_true, Option.some_or] at found
              rw [← Option.some.inj found]
          | some row =>
              simp only [waiting, stored] at found
              split at found
              · simp only [SortedMap.find?_insert, if_true, Option.some_or] at found
                rw [← Option.some.inj found]
              · rename_i same
                simp only [SQLiteCatalog.differs, Bool.or_eq_true, decide_eq_true_eq, not_or, not_not]
                  at same
                simp only [waiting, Option.none_or] at found
                rw [← Option.some.inj found]
                exact same.2

/-- The record of a known path has a number below the next free one. -/
theorem NumbersBelow.lt_of_findByPath (below : catalog.NumbersBelow db) {path : Path}
    {record : DocumentRecord} (found : catalog.findByPath db path = some record) :
    record.id < catalog.nextId := by
  cases catalog with
  | memory paths =>
      obtain ⟨info, stored, rfl⟩ := Option.map_eq_some_iff.mp found
      exact DocPaths.WellFormed.id_lt below stored
  | sqlite state =>
      obtain ⟨pendingBelow, docsBelow⟩ := below
      simp only [findByPath] at found
      cases waiting : state.pending.find? path with
      | some pending =>
          rw [waiting, Option.some_or] at found
          exact Option.some.inj found ▸ pendingBelow path pending waiting
      | none =>
          rw [waiting, Option.none_or] at found
          exact docsBelow _ _ (Database.findByPath_spec found).1

/-- Numbers stay distinct when one path receives a number no other path has. -/
theorem PathsAgree.injective_of_records (agree : catalog.PathsAgree db) {next : DocumentCatalog}
    {path : Path} {stored : DocumentRecord} (found : next.findByPath after path = some stored)
    (distinct : ∀ other otherRecord, other ≠ path →
      catalog.findByPath db other = some otherRecord → otherRecord.id ≠ stored.id)
    (others : ∀ other, other ≠ path →
      next.findByPath after other = catalog.findByPath db other) :
    ∀ left right leftRecord rightRecord, next.findByPath after left = some leftRecord →
      next.findByPath after right = some rightRecord → leftRecord.id = rightRecord.id →
        left = right := by
  intro left right leftRecord rightRecord leftFound rightFound same
  by_cases leftPath : left = path <;> by_cases rightPath : right = path
  · rw [leftPath, rightPath]
  · subst leftPath
    rw [others right rightPath] at rightFound
    rw [found] at leftFound
    exact absurd (Option.some.inj leftFound ▸ same.symm) (distinct right rightRecord rightPath rightFound)
  · subst rightPath
    rw [others left leftPath] at leftFound
    rw [found] at rightFound
    exact absurd (Option.some.inj rightFound ▸ same) (distinct left leftRecord leftPath leftFound)
  · rw [others left leftPath] at leftFound
    rw [others right rightPath] at rightFound
    exact agree.injective left right leftRecord rightRecord leftFound rightFound same

/-- A point update changes the standing of its path only. -/
theorem PathsAgree.upsert (agree : catalog.PathsAgree db) (path : Path) (metadata : DocumentMetadata) :
    (catalog.upsert db path metadata).1.PathsAgree db ∧
      (∀ other, other ≠ path →
        (catalog.upsert db path metadata).1.standing db other = catalog.standing db other) ∧
      (∃ flag, (catalog.upsert db path metadata).1.standing db path =
          some ((catalog.upsert db path metadata).2.1, false, flag) ∧
        (flag = true → db.rowDeleted (catalog.upsert db path metadata).2.1 = true)) ∧
      ∀ fileId flags, catalog.standing db path = some (fileId, flags) →
        (catalog.upsert db path metadata).2.1 = fileId := by
  obtain ⟨record, found, number, active, sameNumber, newNumber, others⟩ :=
    findByPath_upsert catalog db path metadata
  have below := (agree.numbers.upsert path metadata).1
  -- the number of the path differs from the number of every other path
  have distinct : ∀ other otherRecord, other ≠ path →
      catalog.findByPath db other = some otherRecord → otherRecord.id ≠ record.id := by
    intro other otherRecord different otherFound same
    cases old : catalog.findByPath db path with
    | some oldRecord =>
        exact different (agree.injective other path otherRecord oldRecord otherFound old
          (same.trans (sameNumber oldRecord old).symm))
    | none =>
        have small := agree.numbers.lt_of_findByPath otherFound
        rw [same, newNumber old] at small
        exact lt_irrefl _ small
  refine ⟨⟨agree.unique, below, ?_, ?_⟩, ?_, ?_, ?_⟩
  · exact agree.injective_of_records found distinct others
  · intro fileId row stored
    obtain ⟨old, oldFound, same⟩ := agree.rows fileId row stored
    by_cases samePath : row.path = path
    · rw [samePath] at oldFound
      exact ⟨record, samePath ▸ found, (sameNumber old oldFound).symm.trans same⟩
    · exact ⟨old, (others row.path samePath).trans oldFound, same⟩
  · intro other different
    cases catalog with
    | memory paths =>
        have sameInfo := others other different
        rw [DocumentCatalog.upsert] at sameInfo ⊢
        rw [standing_memory below, standing_memory agree.numbers]
        simp only [findByPath, DocPaths.findByPath] at sameInfo
        cases old : paths.path2info.find? other <;>
          cases new : (paths.upsert path metadata).1.path2info.find? other <;> simp_all
    | sqlite state =>
        have sameRecord := others other different
        rw [DocumentCatalog.upsert] at sameRecord ⊢
        rw [standing, sameRecord]
        rfl
  · refine ⟨(catalog.upsert db path metadata).1.isDeleted db record.id, ?_, ?_⟩
    · rw [standing, found, Option.map_some, active, number]
    · cases catalog with
      | memory paths =>
          intro flagged
          rw [DocumentCatalog.upsert] at found flagged
          obtain ⟨info, stored, rfl⟩ := Option.map_eq_some_iff.mp found
          rw [isDeleted, isDeleted_memory below stored] at flagged
          rw [flagged] at active
          cases active
      | sqlite state =>
          intro flagged
          rw [← number]
          exact flagged
  · intro fileId flags known
    obtain ⟨old, oldFound, facts⟩ := Option.map_eq_some_iff.mp known
    rw [← number, ← sameNumber old oldFound]
    exact congrArg Prod.fst facts

/-- An update that reports no change leaves the active record of the path as it is. -/
theorem standing_upsert_of_unchanged {path : Path} {metadata : DocumentMetadata}
    (unchanged : (catalog.upsert db path metadata).2.2 = false) :
    (catalog.upsert db path metadata).1.standing db path = catalog.standing db path ∧
      ∃ fileId flag, catalog.standing db path = some (fileId, false, flag) := by
  cases catalog with
  | memory paths =>
      simp only [upsert, DocPaths.upsert] at unchanged ⊢
      cases found : paths.path2info.find? path with
      | none => simp [found] at unchanged
      | some info =>
          simp only [found] at unchanged ⊢
          split at unchanged
          · cases unchanged
          · rename_i same
            have active : info.deleted = false := by
              simp only [Bool.or_eq_true, not_or, Bool.not_eq_true] at same
              exact same.1
            rw [if_neg same]
            refine ⟨rfl, info.id, paths.isDeleted info.id, ?_⟩
            simp [standing, findByPath, DocPaths.findByPath, isDeleted, found, active]
  | sqlite state =>
      -- the flag queries see is that of the row, which no update touches
      have sameRecord : (state.upsert db path metadata).2.2 = false →
          ((state.upsert db path metadata).1.pending.find? path).or (db.findByPath path) =
            (state.pending.find? path).or (db.findByPath path) ∧
          ∃ record, (state.pending.find? path).or (db.findByPath path) = some record ∧
            record.deleted = false := by
        intro unchanged
        simp only [SQLiteCatalog.upsert] at unchanged ⊢
        cases waiting : state.pending.find? path with
        | some record =>
            simp only [waiting] at unchanged ⊢
            simp only [SQLiteCatalog.differs, Bool.or_eq_false_iff, decide_eq_false_iff_not,
              not_not] at unchanged
            obtain ⟨active, rfl⟩ := unchanged
            have same : ({ record with deleted := false } : DocumentRecord) = record := by rw [← active]
            simp [same, active]
        | none =>
            simp only [waiting] at unchanged ⊢
            cases stored : db.findByPath path with
            | none => simp [stored] at unchanged
            | some record =>
                simp only [stored] at unchanged ⊢
                split at unchanged
                · cases unchanged
                · rename_i same
                  have active : record.deleted = false := by
                    simp only [SQLiteCatalog.differs, Bool.or_eq_true, not_or, Bool.not_eq_true] at same
                    exact same.1
                  rw [if_neg same, waiting]
                  simp [active]
      obtain ⟨same, record, found, active⟩ := sameRecord unchanged
      constructor
      · simp only [standing, findByPath, upsert, same]
        rfl
      · refine ⟨record.id, db.rowDeleted record.id, ?_⟩
        simp only [standing, findByPath, found, Option.map_some, active]
        rfl

/-! ## Persisted batches and deletions -/

/-- Another path has another number. -/
theorem PathsAgree.id_ne (agree : catalog.PathsAgree db) {path other : Path}
    {record otherRecord : DocumentRecord} (found : catalog.findByPath db path = some record)
    (otherFound : catalog.findByPath db other = some otherRecord) (different : other ≠ path) :
    otherRecord.id ≠ record.id :=
  fun same => different (agree.injective other path otherRecord record otherFound found same)

/-- A row of another path belongs to another document. -/
theorem PathsAgree.row_ne (agree : catalog.PathsAgree db) {path : Path} {record : DocumentRecord}
    (found : catalog.findByPath db path = some record) {fileId : FileId} {row : DocRow}
    (stored : db.docs.find? fileId = some row) (different : row.path ≠ path) : fileId ≠ record.id := by
  obtain ⟨old, oldFound, rfl⟩ := agree.rows fileId row stored
  exact agree.id_ne found oldFound different

/-- Records and seen flags of the other paths give their standings. -/
theorem standing_congr {next : DocumentCatalog} {path : Path}
    (sameRecord : next.findByPath after path = catalog.findByPath db path)
    (sameFlag : ∀ record, catalog.findByPath db path = some record →
      next.isDeleted after record.id = catalog.isDeleted db record.id) :
    next.standing after path = catalog.standing db path := by
  rw [standing, sameRecord, standing]
  cases found : catalog.findByPath db path with
  | none => rfl
  | some record => rw [Option.map_some, Option.map_some, sameFlag record found]

/-- The records after the `docs` row of a batch is written. -/
theorem PathsAgree.findByPath_persist (agree : catalog.PathsAgree db) {path : Path} {record : DocumentRecord}
    (found : catalog.findByPath db path = some record) (active : record.deleted = false)
    (unique : after.PathsUnique) {row : DocRow} (rowPath : row.path = path)
    (rowActive : row.deleted = false)
    (written : ∀ fileId, after.docs.find? fileId =
      if fileId = record.id then some row else db.docs.find? fileId) :
    (∃ stored, (catalog.notePersisted path record.id).findByPath after path = some stored ∧
      stored.id = record.id ∧ stored.deleted = false ∧
      (catalog.notePersisted path record.id).isDeleted after record.id = false ∧
      (⟨row.mtimeTicks, row.size⟩ = record.metadata → stored.metadata = record.metadata)) ∧
      ∀ other, other ≠ path →
        (catalog.notePersisted path record.id).findByPath after other = catalog.findByPath db other := by
  have ownRow : after.docs.find? record.id = some row := by rw [written, if_pos rfl]
  have otherRows : ∀ other, other ≠ path → after.findByPath other = db.findByPath other := by
    intro other different
    refine Database.findByPath_congr unique fun fileId stored samePath => ?_
    rw [written]
    by_cases same : fileId = record.id
    · rw [if_pos same]
      constructor
      · intro present
        exact absurd same (agree.row_ne found present (samePath ▸ different))
      · intro present
        exact absurd (samePath.symm.trans ((Option.some.inj present) ▸ rowPath)) different
    · rw [if_neg same]
  constructor
  · cases catalog with
    | memory paths =>
        obtain ⟨info, infoFound, rfl⟩ := Option.map_eq_some_iff.mp found
        refine ⟨_, found, rfl, active, ?_, fun _ => rfl⟩
        exact (isDeleted_memory agree.numbers infoFound).trans active
    | sqlite state =>
        have cleared : (state.notePersisted path record.id).pending.find? path = none := by
          unfold SQLiteCatalog.notePersisted
          cases waiting : state.pending.find? path with
          | none => exact waiting
          | some pending =>
              have same : pending = record := by
                have first : (state.pending.find? path).or (db.findByPath path) = some record := found
                rw [waiting, Option.some_or] at first
                exact Option.some.inj first
              simp [same]
        have stored := Database.findByPath_of_row unique ownRow
        rw [rowPath] at stored
        refine ⟨⟨record.id, path, ⟨row.mtimeTicks, row.size⟩, row.deleted⟩, ?_, rfl, rowActive, ?_, id⟩
        · change ((state.notePersisted path record.id).pending.find? path).or (after.findByPath path) = _
          rw [cleared, Option.none_or, stored]
        · change (after.docs.find? record.id).any DocRow.deleted = false
          rw [ownRow, Option.any_some, rowActive]
  · intro other different
    cases catalog with
    | memory paths => rfl
    | sqlite state =>
        change ((state.notePersisted path record.id).pending.find? other).or (after.findByPath other) =
          (state.pending.find? other).or (db.findByPath other)
        have kept : (state.notePersisted path record.id).pending.find? other = state.pending.find? other := by
          unfold SQLiteCatalog.notePersisted
          cases state.pending.find? path with
          | none => rfl
          | some pending =>
              dsimp only
              split
              · simp [Ne.symm different]
              · rfl
        rw [kept, otherRows other different]

/-- The `docs` row written for a batch makes its path persisted and active. -/
theorem PathsAgree.persist (agree : catalog.PathsAgree db) {path : Path} {record : DocumentRecord}
    (found : catalog.findByPath db path = some record) (active : record.deleted = false)
    (unique : after.PathsUnique) {row : DocRow} (rowPath : row.path = path)
    (rowActive : row.deleted = false)
    (written : ∀ fileId, after.docs.find? fileId =
      if fileId = record.id then some row else db.docs.find? fileId) :
    (catalog.notePersisted path record.id).PathsAgree after ∧
      (∀ other, other ≠ path →
        (catalog.notePersisted path record.id).standing after other = catalog.standing db other) ∧
      (catalog.notePersisted path record.id).standing after path = some (record.id, false, false) := by
  have small := agree.numbers.lt_of_findByPath found
  have afterNumbers : catalog.NumbersBelow after := by
    cases catalog with
    | memory paths => exact agree.numbers
    | sqlite state =>
        refine ⟨agree.numbers.1, fun fileId stored present => ?_⟩
        rw [written] at present
        split at present
        · rename_i same
          exact same ▸ small
        · exact agree.numbers.2 fileId stored present
  have numbers := afterNumbers.notePersisted path record.id
  obtain ⟨⟨stored, storedFound, sameId, storedActive, seen, -⟩, otherRecords⟩ :=
    agree.findByPath_persist found active unique rowPath rowActive written
  refine ⟨⟨unique, numbers, ?_, ?_⟩, ?_, ?_⟩
  · refine agree.injective_of_records storedFound (fun other otherRecord different otherFound => ?_)
      otherRecords
    rw [sameId]
    exact agree.id_ne found otherFound different
  · intro fileId present presentFound
    rw [written] at presentFound
    split at presentFound
    · rename_i same
      obtain rfl := Option.some.inj presentFound
      exact ⟨stored, rowPath ▸ storedFound, sameId.trans same.symm⟩
    · rename_i differs
      obtain ⟨old, oldFound, same⟩ := agree.rows fileId present presentFound
      have otherPath : present.path ≠ path := by
        intro samePath
        rw [samePath, found] at oldFound
        exact differs (same.symm.trans (congrArg DocumentRecord.id (Option.some.inj oldFound)).symm)
      exact ⟨old, (otherRecords present.path otherPath).trans oldFound, same⟩
  · intro other different
    refine standing_congr (otherRecords other different) fun otherRecord otherFound => ?_
    have differs := agree.id_ne found otherFound different
    cases catalog with
    | memory paths => rfl
    | sqlite state =>
        change (after.docs.find? otherRecord.id).any DocRow.deleted =
          (db.docs.find? otherRecord.id).any DocRow.deleted
        rw [written, if_neg differs]
  · rw [standing, storedFound, Option.map_some, sameId, storedActive, seen]

/-- The records after a persisted document is flagged. -/
theorem PathsAgree.findByPath_remove (agree : catalog.PathsAgree db) {path : Path}
    {record : DocumentRecord} (found : catalog.findByPath db path = some record)
    (persisted : catalog.Persisted path) (unique : after.PathsUnique)
    (marked : ∀ fileId, after.docs.find? fileId =
      if fileId = record.id then (db.docs.find? fileId).map fun row => { row with deleted := true }
      else db.docs.find? fileId) :
    (∃ stored, (catalog.markRemoved record.id).findByPath after path = some stored ∧
      stored.id = record.id ∧ stored.deleted = true ∧
      (catalog.markRemoved record.id).isDeleted after record.id = true) ∧
      ∀ other, other ≠ path →
        (catalog.markRemoved record.id).findByPath after other = catalog.findByPath db other := by
  have otherRows : ∀ other, other ≠ path → after.findByPath other = db.findByPath other := by
    intro other different
    refine Database.findByPath_congr unique fun fileId stored samePath => ?_
    rw [marked]
    by_cases same : fileId = record.id
    · rw [if_pos same]
      constructor
      · intro present
        exact absurd same (agree.row_ne found present (samePath ▸ different))
      · intro present
        obtain ⟨old, oldFound, rfl⟩ := Option.map_eq_some_iff.mp present
        exact absurd same (agree.row_ne found oldFound (samePath ▸ different))
    · rw [if_neg same]
  constructor
  · cases catalog with
    | memory paths =>
        obtain ⟨info, infoFound, rfl⟩ := Option.map_eq_some_iff.mp found
        have located := agree.numbers path info infoFound
        have flagged : (paths.markRemoved info.id).path2info.find? path =
            some { info with deleted := true } := by
          simp [DocPaths.markRemoved, located, infoFound]
        refine ⟨⟨info.id, path, info.metadata, true⟩, ?_, rfl, rfl, ?_⟩
        · change ((paths.markRemoved info.id).path2info.find? path).map _ = _
          rw [flagged]
          rfl
        · have numbers : (paths.markRemoved info.id).WellFormed := agree.numbers.markRemoved info.id
          exact isDeleted_memory numbers flagged
    | sqlite state =>
        have stored : db.findByPath path = some record := by
          have first : (state.pending.find? path).or (db.findByPath path) = some record := found
          rwa [show state.pending.find? path = none from persisted, Option.none_or] at first
        obtain ⟨row, _⟩ := Database.findByPath_spec stored
        have flagged : after.docs.find? record.id =
            some ⟨path, record.metadata.mtimeTicks, record.metadata.size, true⟩ := by
          rw [marked, if_pos rfl, row]
          rfl
        refine ⟨⟨record.id, path, record.metadata, true⟩, ?_, rfl, rfl, ?_⟩
        · change (state.pending.find? path).or (after.findByPath path) = _
          rw [show state.pending.find? path = none from persisted, Option.none_or]
          exact Database.findByPath_of_row unique flagged
        · change (after.docs.find? record.id).any DocRow.deleted = true
          rw [flagged]
          rfl
  · intro other different
    cases catalog with
    | memory paths =>
        obtain ⟨info, infoFound, rfl⟩ := Option.map_eq_some_iff.mp found
        have located := agree.numbers path info infoFound
        change ((paths.markRemoved info.id).path2info.find? other).map _ = (paths.path2info.find? other).map _
        simp [DocPaths.markRemoved, located, Ne.symm different]
    | sqlite state =>
        change (state.pending.find? other).or (after.findByPath other) =
          (state.pending.find? other).or (db.findByPath other)
        rw [otherRows other different]

/-- A deletion of a persisted document flags its record and its row. -/
theorem PathsAgree.remove (agree : catalog.PathsAgree db) {path : Path} {record : DocumentRecord}
    (found : catalog.findByPath db path = some record) (persisted : catalog.Persisted path)
    (unique : after.PathsUnique)
    (marked : ∀ fileId, after.docs.find? fileId =
      if fileId = record.id then (db.docs.find? fileId).map fun row => { row with deleted := true }
      else db.docs.find? fileId) :
    (catalog.markRemoved record.id).PathsAgree after ∧
      (∀ other, other ≠ path →
        (catalog.markRemoved record.id).standing after other = catalog.standing db other) ∧
      (catalog.markRemoved record.id).standing after path = some (record.id, true, true) := by
  have afterNumbers : catalog.NumbersBelow after := by
    cases catalog with
    | memory paths => exact agree.numbers
    | sqlite state =>
        refine ⟨agree.numbers.1, fun fileId stored present => ?_⟩
        rw [marked] at present
        split at present
        · obtain ⟨old, oldFound, _⟩ := Option.map_eq_some_iff.mp present
          exact agree.numbers.2 fileId old oldFound
        · exact agree.numbers.2 fileId stored present
  have numbers := afterNumbers.markRemoved record.id
  obtain ⟨⟨stored, storedFound, sameId, storedFlag, seen⟩, otherRecords⟩ :=
    agree.findByPath_remove found persisted unique marked
  refine ⟨⟨unique, numbers, ?_, ?_⟩, ?_, ?_⟩
  · refine agree.injective_of_records storedFound (fun other otherRecord different otherFound => ?_)
      otherRecords
    rw [sameId]
    exact agree.id_ne found otherFound different
  · intro fileId present presentFound
    have oldRow : ∃ old, db.docs.find? fileId = some old ∧ old.path = present.path := by
      rw [marked] at presentFound
      split at presentFound
      · obtain ⟨old, oldFound, rfl⟩ := Option.map_eq_some_iff.mp presentFound
        exact ⟨old, oldFound, rfl⟩
      · exact ⟨present, presentFound, rfl⟩
    obtain ⟨old, oldFound, samePath⟩ := oldRow
    obtain ⟨known, knownFound, same⟩ := agree.rows fileId old oldFound
    rw [samePath] at knownFound
    by_cases ownPath : present.path = path
    · rw [ownPath, found] at knownFound
      refine ⟨stored, ownPath ▸ storedFound, sameId.trans ?_⟩
      rw [Option.some.inj knownFound]
      exact same
    · exact ⟨known, (otherRecords present.path ownPath).trans knownFound, same⟩
  · intro other different
    cases catalog with
    | memory paths =>
        have sameInfo := otherRecords other different
        rw [markRemoved] at sameInfo ⊢
        rw [standing_memory numbers, standing_memory agree.numbers]
        simp only [findByPath, DocPaths.findByPath] at sameInfo
        cases old : paths.path2info.find? other <;>
          cases new : (paths.markRemoved record.id).path2info.find? other <;> simp_all
    | sqlite state =>
        refine standing_congr (otherRecords other different) fun otherRecord otherFound => ?_
        have differs := agree.id_ne found otherFound different
        change (after.docs.find? otherRecord.id).any DocRow.deleted =
          (db.docs.find? otherRecord.id).any DocRow.deleted
        rw [marked, if_neg differs]
  · rw [standing, storedFound, Option.map_some, sameId, storedFlag, seen]

/-! ## The opened catalog -/

/-- A catalog just opened knows the committed rows. -/
theorem findByPath_openCatalog (storage : System.CatalogStorage) (db : Database) (path : Path) :
    (System.openCatalog storage db).findByPath db path = db.findByPath path := by
  cases storage with
  | sqlite => rfl
  | memory =>
      let entryOf : FileId × DocRow → Path × FileInfo := fun entry =>
        (entry.2.path, ⟨⟨entry.2.mtimeTicks, entry.2.size⟩, entry.1, entry.2.deleted⟩)
      have rebuilt : (DocPaths.rebuildFromRows db).path2info.find? path =
          SortedMap.findEntry path (db.docs.entries.map entryOf) := by
        have folded : (DocPaths.rebuildFromRows db).path2info =
            (db.docs.entries.map entryOf).foldl (fun entries entry => entries.emplace entry.1 entry.2) ∅ := by
          rw [List.foldl_map]
          rfl
        rw [folded, SortedMap.find?_foldl_emplace, SortedMap.find?_empty, Option.none_or]
      change ((DocPaths.rebuildFromRows db).path2info.find? path).map _ = db.findByPath path
      rw [rebuilt, Database.findByPath]
      generalize db.docs.entries = entries
      induction entries with
      | nil => rfl
      | cons entry rest ih =>
          rw [List.map_cons, SortedMap.findEntry_cons, List.find?_cons]
          by_cases same : entry.2.path = path
          · subst same
            simp
          · simp only [entryOf, same, if_false, decide_false]
            exact ih

theorem pathsAgree_openCatalog (storage : System.CatalogStorage) {db : Database}
    (unique : db.PathsUnique) : (System.openCatalog storage db).PathsAgree db := by
  constructor
  case unique => exact unique
  case numbers => exact System.numbersBelow_openCatalog storage db
  case injective =>
    intro left right leftRecord rightRecord leftFound rightFound same
    rw [findByPath_openCatalog] at leftFound rightFound
    have leftRow := (Database.findByPath_spec leftFound).1
    have rightRow := (Database.findByPath_spec rightFound).1
    rw [same, rightRow] at leftRow
    exact congrArg DocRow.path (Option.some.inj leftRow).symm
  case rows =>
    intro fileId row found
    exact ⟨_, (findByPath_openCatalog storage db row.path).trans
      (Database.findByPath_of_row unique found), rfl⟩

end DocumentCatalog

end SearchEngine.Index
