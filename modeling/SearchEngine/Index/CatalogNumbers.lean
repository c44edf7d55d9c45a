import SearchEngine.Index.CatalogScan
import SearchEngine.Lib.Machine

/-!
# Numbers and rows of the SQLite catalog

Scans and point updates hand out document numbers; the row of a document is
committed later, or never. `upsert` records a new number in `pending_` before it
counts the document. `scan` reads the table only: it neither sees a pending path
nor records the number it gives, so a path can get a second number and the
document counter counts documents that have neither a row nor an entry.
-/

namespace SearchEngine.Index

open SearchEngine.Lib

/-- A document that was handed to indexing and whose row is not written yet. -/
structure RowWrite where
  id : FileId
  path : Path
  metadata : DocumentMetadata
  deriving DecidableEq

/-- The catalog, the committed rows and the rows still to be written. -/
structure CatalogState where
  catalog : SQLiteCatalog
  db : Database
  writes : List RowWrite

namespace CatalogState

/-- One step: a scan, a point update, the commit of an outstanding row or its
failure (the file could not be indexed, has no word, or the transaction failed),
`notePersisted` after a commit, or a committed deletion mark. -/
inductive Action where
  | scan (stat : Stat) (scanned : List Path)
  | upsert (path : Path) (metadata : DocumentMetadata)
  | commitRow (position : Nat)
  | failRow (position : Nat)
  | notePersisted (path : Path) (id : FileId)
  | markDeleted (id : FileId)

/-- The row of a scan item. -/
def scanWrite (scanned : List Path) (item : CatalogScanItem) : RowWrite :=
  ⟨item.id, scanned.getD item.pathIndex [], item.metadata⟩

/-- A scan hands its added and updated documents to indexing. -/
def scan (s : CatalogState) (stat : Stat) (scanned : List Path) : CatalogState :=
  match (s.catalog.scan s.db stat scanned).2 with
  | none => { s with catalog := (s.catalog.scan s.db stat scanned).1 }
  | some diff => { s with
      catalog := (s.catalog.scan s.db stat scanned).1
      writes := s.writes ++ (diff.added ++ diff.updated).map (scanWrite scanned) }

/-- A point update hands a changed document to indexing. -/
def upsert (s : CatalogState) (path : Path) (metadata : DocumentMetadata) : CatalogState :=
  let upserted := s.catalog.upsert s.db path metadata
  { s with
    catalog := upserted.1
    writes := if upserted.2.2 then s.writes ++ [⟨upserted.2.1, path, metadata⟩] else s.writes }

/-- The row of a document is committed; a violated unique index is no commit. -/
def commitRow (s : CatalogState) (position : Nat) : Option CatalogState :=
  (s.writes[position]?).bind fun write =>
    (s.db.upsertDoc write.id write.path write.metadata.mtimeTicks write.metadata.size).map fun db =>
      { s with db := db, writes := s.writes.eraseIdx position }

/-- The transition function. -/
def step (s : CatalogState) : Action → Option CatalogState
  | .scan stat scanned => some (s.scan stat scanned)
  | .upsert path metadata => some (s.upsert path metadata)
  | .commitRow position => s.commitRow position
  | .failRow position => some { s with writes := s.writes.eraseIdx position }
  | .notePersisted path id =>
      if (s.db.docs.find? id).map DocRow.path = some path then
        some { s with catalog := s.catalog.notePersisted path id }
      else none
  | .markDeleted id => some { s with db := s.db.markDeleted id }

/-- The catalog and the database as a machine. -/
def machine : Machine CatalogState Action := ⟨step⟩

/-- The catalog opened on a database. -/
def opened (db : Database) : CatalogState := ⟨.opened db, db, []⟩

/-! ## One number per path -/

/-- A committed row or a pending entry gives the path this number. -/
def Named (s : CatalogState) (id : FileId) (path : Path) : Prop :=
  (∃ row, s.db.docs.find? id = some row ∧ row.path = path) ∨
    ∃ record, s.catalog.pending.find? path = some record ∧ record.id = id

/-- The pending paths without a row. -/
def unwritten (s : CatalogState) : List Path :=
  s.catalog.pending.keys.filter fun path => (s.db.findByPath path).isNone

/-- Each path has one number and each number one path, and every outstanding row
can be written under the unique index of paths. -/
structure NumbersUnique (s : CatalogState) : Prop where
  onePath : ∀ id left right, s.Named id left → s.Named id right → left = right
  oneNumber : ∀ left right path, s.Named left path → s.Named right path → left = right
  writable : ∀ write ∈ s.writes,
    (s.db.upsertDoc write.id write.path write.metadata.mtimeTicks write.metadata.size).isSome

/-- The numbers are unique and `size()` counts the rows and the pending paths
without one. -/
structure AgreesWithDatabase (s : CatalogState) : Prop extends s.NumbersUnique where
  size : s.catalog.documentCount = s.db.docs.entries.length + s.unwritten.length

/-- The path has a row in `docs`. -/
def HasRow (s : CatalogState) (path : Path) : Prop :=
  ∃ id row, s.db.docs.find? id = some row ∧ row.path = path

/-- A scan reports when it lists no path twice and all its files can be read. -/
def Reports (stat : Stat) (scanned : List Path) : Prop :=
  scanned.Nodup ∧ ∀ path ∈ scanned, (stat path).isSome

/-- Every path that a scan lists has a row, unless the scan throws. -/
def ScansKnownPaths (s : CatalogState) : Action → Prop
  | .scan stat scanned => Reports stat scanned → ∀ path ∈ scanned, s.HasRow path
  | _ => True

/-- A row, a pending entry or an outstanding row gives the path this number. -/
def Live (s : CatalogState) (id : FileId) (path : Path) : Prop :=
  s.Named id path ∨ ∃ write ∈ s.writes, write.id = id ∧ write.path = path

/-- A new number goes to a path without one: a listed path without a row is neither
pending nor outstanding, and a point update of a path without row and entry meets no
outstanding row. -/
def NumbersNewPaths (s : CatalogState) : Action → Prop
  | .scan stat scanned => Reports stat scanned → ∀ path ∈ scanned, ¬ s.HasRow path →
      s.catalog.pending.find? path = none ∧ ∀ write ∈ s.writes, write.path ≠ path
  | .upsert path _ => ¬ s.HasRow path → s.catalog.pending.find? path = none →
      ∀ write ∈ s.writes, write.path ≠ path
  | _ => True

/-! ## Live numbers -/

/-- The live numbers are distinct and below the next free one. -/
structure Distinct (s : CatalogState) : Prop where
  unique : s.db.PathsUnique
  below : ∀ id path, s.Live id path → id < s.catalog.nextId
  onePath : ∀ id left right, s.Live id left → s.Live id right → left = right
  oneNumber : ∀ left right path, s.Live left path → s.Live right path → left = right

variable {s : CatalogState}

/-- Live numbers stay distinct when paths without one get fresh ones. -/
theorem Distinct.extend (distinct : s.Distinct) {next : CatalogState}
    (unique : next.db.PathsUnique) (above : s.catalog.nextId ≤ next.catalog.nextId)
    (new : FileId → Path → Prop)
    (live : ∀ id path, next.Live id path → s.Live id path ∨ new id path)
    (fresh : ∀ id path, new id path → s.catalog.nextId ≤ id ∧ id < next.catalog.nextId ∧
      ∀ other, ¬ s.Live other path)
    (newPath : ∀ id left right, new id left → new id right → left = right)
    (newNumber : ∀ left right path, new left path → new right path → left = right) :
    next.Distinct where
  unique := unique
  below id path lives := by
    rcases live id path lives with old | added
    · exact (distinct.below id path old).trans_le above
    · exact (fresh id path added).2.1
  onePath id left right leftLives rightLives := by
    rcases live id left leftLives with leftOld | leftNew
    · rcases live id right rightLives with rightOld | rightNew
      · exact distinct.onePath id left right leftOld rightOld
      · exact absurd (distinct.below id left leftOld) (not_lt.mpr (fresh id right rightNew).1)
    · rcases live id right rightLives with rightOld | rightNew
      · exact absurd (distinct.below id right rightOld) (not_lt.mpr (fresh id left leftNew).1)
      · exact newPath id left right leftNew rightNew
  oneNumber left right path leftLives rightLives := by
    rcases live left path leftLives with leftOld | leftNew
    · rcases live right path rightLives with rightOld | rightNew
      · exact distinct.oneNumber left right path leftOld rightOld
      · exact absurd leftOld ((fresh right path rightNew).2.2 left)
    · rcases live right path rightLives with rightOld | rightNew
      · exact absurd rightOld ((fresh left path leftNew).2.2 right)
      · exact newNumber left right path leftNew rightNew

/-- Live numbers stay distinct when none is handed out. -/
theorem Distinct.shrink (distinct : s.Distinct) {next : CatalogState}
    (unique : next.db.PathsUnique) (above : s.catalog.nextId ≤ next.catalog.nextId)
    (live : ∀ id path, next.Live id path → s.Live id path) : next.Distinct :=
  distinct.extend unique above (fun _ _ => False) (fun id path lives => .inl (live id path lives))
    (fun _ _ none => none.elim) (fun _ _ _ none => none.elim) (fun _ _ _ none => none.elim)

/-- The outstanding rows can be written. -/
theorem Distinct.numbersUnique (distinct : s.Distinct) : s.NumbersUnique where
  onePath id left right leftNamed rightNamed :=
    distinct.onePath id left right (.inl leftNamed) (.inl rightNamed)
  oneNumber left right path leftNamed rightNamed :=
    distinct.oneNumber left right path (.inl leftNamed) (.inl rightNamed)
  writable write outstanding := by
    have free : ¬ s.db.pathTaken write.id write.path = true := by
      rw [Database.pathTaken_eq_true_iff]
      rintro ⟨other, row, found, differs, taken⟩
      exact differs (distinct.oneNumber other write.id write.path (.inl (.inl ⟨row, found, taken⟩))
        (.inr ⟨write, outstanding, rfl, rfl⟩))
    rw [Database.upsertDoc, if_neg free]
    rfl

/-! ## One lemma for each step -/

/-- A scan that throws changes nothing. -/
theorem scan_of_none {stat : Stat} {scanned : List Path}
    (thrown : (s.catalog.scan s.db stat scanned).2 = none) : s.scan stat scanned = s := by
  rw [scan, thrown]
  dsimp only
  rw [SQLiteCatalog.scan_of_none thrown]

theorem findByPath_eq_none_iff {db : Database} {path : Path} :
    db.findByPath path = none ↔ ∀ id, ¬ ∃ row, db.docs.find? id = some row ∧ row.path = path := by
  constructor
  · rintro unfound id ⟨row, found, rfl⟩
    have present := Database.isSome_findByPath found
    rw [unfound] at present
    cases present
  · intro unnamed
    by_contra present
    obtain ⟨record, found⟩ := Option.ne_none_iff_exists'.mp present
    exact unnamed record.id ⟨_, (Database.findByPath_spec found).1, rfl⟩

theorem not_hasRow_iff {path : Path} : ¬ s.HasRow path ↔ s.db.findByPath path = none := by
  rw [findByPath_eq_none_iff, HasRow, not_exists]

/-- The scans that report are those of distinct readable paths. -/
theorem reports_iff {stat : Stat} {scanned : List Path} :
    Reports stat scanned ↔ ∃ diff, (s.catalog.scan s.db stat scanned).2 = some diff := by
  constructor
  · rintro ⟨nodup, readable⟩
    have listed : ∀ entry ∈ scanned.zipIdx, (stat entry.1).isSome := fun entry member =>
      readable entry.1 (List.fst_mem_of_mem_zipIdx member)
    obtain ⟨diff, done⟩ : ∃ diff, SQLiteCatalog.scanPaths s.db stat scanned.zipIdx s.catalog.nextId = some diff :=
      SQLiteCatalog.scanPaths_of_readable listed _
    rw [SQLiteCatalog.scan, if_pos nodup, done]
    exact ⟨_, rfl⟩
  · rintro ⟨diff, reported⟩
    obtain ⟨nodup, spec, -, -⟩ := SQLiteCatalog.scan_of_some reported
    refine ⟨nodup, fun path member => ?_⟩
    obtain ⟨index, found⟩ := List.mem_iff_getElem?.mp member
    exact spec.readable (path, index) (List.mk_mem_zipIdx_iff_getElem?.mpr found)

/-- A scan adds the listed paths without a row. -/
theorem added_eq_nil_iff {stat : Stat} {scanned : List Path} {diff : CatalogDiff}
    (reported : (s.catalog.scan s.db stat scanned).2 = some diff) :
    diff.added = [] ↔ ∀ path ∈ scanned, s.HasRow path := by
  obtain ⟨-, spec, -, -⟩ := SQLiteCatalog.scan_of_some reported
  constructor
  · intro nothing path member
    by_contra unknown
    obtain ⟨index, found⟩ := List.mem_iff_getElem?.mp member
    have listed : (path, index) ∈ scanned.zipIdx := List.mk_mem_zipIdx_iff_getElem?.mpr found
    obtain ⟨metadata, read⟩ := Option.isSome_iff_exists.mp (spec.readable _ listed)
    have places := spec.added
    rw [nothing] at places
    have selected := List.filterMap_eq_nil_iff.mp places.symm (path, index) listed
    simp [SQLiteCatalog.addedAt, not_hasRow_iff.mp unknown, read] at selected
  · intro known
    refine List.eq_nil_iff_forall_not_mem.mpr fun item member => ?_
    obtain ⟨path, found, unfound, -⟩ := spec.of_added member
    exact not_hasRow_iff.mpr unfound (known path (List.mem_of_getElem? found))

/-- The state after a scan that reports. -/
theorem scan_of_some {stat : Stat} {scanned : List Path} {diff : CatalogDiff}
    (reported : (s.catalog.scan s.db stat scanned).2 = some diff) :
    s.scan stat scanned = {
      catalog := { s.catalog with
        nextId := s.catalog.nextId + diff.added.length
        documentCount := s.catalog.documentCount + diff.added.length }
      db := s.db
      writes := s.writes ++ (diff.added ++ diff.updated).map (scanWrite scanned) } := by
  rw [scan, reported]
  dsimp only
  rw [(SQLiteCatalog.scan_of_some reported).2.2.2]

theorem Distinct.scan (distinct : s.Distinct) {stat : Stat} {scanned : List Path}
    (fresh : s.NumbersNewPaths (.scan stat scanned)) : (s.scan stat scanned).Distinct := by
  cases reported : (s.catalog.scan s.db stat scanned).2 with
  | none =>
      rw [scan_of_none reported]
      exact distinct
  | some diff =>
      obtain ⟨nodup, spec, -, -⟩ := SQLiteCatalog.scan_of_some reported
      have located : ∀ item ∈ diff.added ++ diff.updated, ∃ path,
          scanned[item.pathIndex]? = some path ∧ scanned.getD item.pathIndex [] = path := by
        intro item member
        have place : ∃ path, scanned[item.pathIndex]? = some path := by
          rcases List.mem_append.mp member with isAdded | isUpdated
          · exact (spec.of_added isAdded).imp fun _ found => found.1
          · exact (spec.of_updated isUpdated).imp fun _ ⟨_, found⟩ => found.1
        obtain ⟨path, found⟩ := place
        exact ⟨path, found, by rw [List.getD_eq_getElem?_getD, found, Option.getD_some]⟩
      have sameItem : ∀ left ∈ diff.added, ∀ right ∈ diff.added,
          left.id = right.id ∨ left.pathIndex = right.pathIndex → left = right := by
        intro left leftAdded right rightAdded same
        rcases same with sameId | sameIndex
        · exact List.inj_on_of_nodup_map spec.added_injective.1 leftAdded rightAdded sameId
        · exact List.inj_on_of_nodup_map spec.added_injective.2 leftAdded rightAdded sameIndex
      rw [scan_of_some reported]
      refine distinct.extend distinct.unique (Nat.le_add_right _ _)
        (fun id path => ∃ item ∈ diff.added, item.id = id ∧ scanned.getD item.pathIndex [] = path)
        ?_ ?_ ?_ ?_
      · rintro id path (named | ⟨write, listed, rfl, rfl⟩)
        · exact .inl (.inl named)
        · rcases List.mem_append.mp listed with old | handed
          · exact .inl (.inr ⟨write, old, rfl, rfl⟩)
          · obtain ⟨item, member, rfl⟩ := List.mem_map.mp handed
            rcases List.mem_append.mp member with isAdded | isUpdated
            · exact .inr ⟨item, isAdded, rfl, rfl⟩
            · obtain ⟨path, record, here, found, sameId, _⟩ := spec.of_updated isUpdated
              obtain ⟨row, samePath⟩ := Database.findByPath_spec found
              refine .inl (.inl (.inl ⟨_, sameId ▸ row, ?_⟩))
              change path = scanned.getD item.pathIndex []
              rw [List.getD_eq_getElem?_getD, here, Option.getD_some]
      · rintro id path ⟨item, isAdded, rfl, rfl⟩
        have range : item.id ∈ List.range' s.catalog.nextId diff.added.length := by
          rw [← spec.numbers]
          exact List.mem_map_of_mem isAdded
        obtain ⟨lower, upper⟩ := List.mem_range'_1.mp range
        obtain ⟨path, here, unfound, -⟩ := spec.of_added isAdded
        have named : scanned.getD item.pathIndex [] = path := by
          rw [List.getD_eq_getElem?_getD, here, Option.getD_some]
        have unknown := not_hasRow_iff.mpr unfound
        obtain ⟨unpending, unlisted⟩ :=
          fresh (reports_iff.mpr ⟨diff, reported⟩) path (List.mem_of_getElem? here) unknown
        refine ⟨lower, upper, fun other => ?_⟩
        rw [named]
        rintro ((⟨row, stored⟩ | ⟨record, pending, -⟩) | ⟨write, outstanding, -, same⟩)
        · exact unknown ⟨other, row, stored⟩
        · rw [unpending] at pending
          cases pending
        · exact unlisted write outstanding same
      · rintro id _ _ ⟨left, leftAdded, leftId, rfl⟩ ⟨right, rightAdded, rightId, rfl⟩
        rw [sameItem left leftAdded right rightAdded (.inl (leftId.trans rightId.symm))]
      · rintro _ _ path ⟨left, leftAdded, rfl, leftPath⟩ ⟨right, rightAdded, rfl, rightPath⟩
        obtain ⟨leftFound, leftHere, leftSame⟩ := located left (List.mem_append_left _ leftAdded)
        obtain ⟨rightFound, rightHere, rightSame⟩ := located right (List.mem_append_left _ rightAdded)
        have samePath : leftFound = rightFound :=
          leftSame.symm.trans (leftPath.trans (rightPath.symm.trans rightSame))
        have sameIndex : left.pathIndex = right.pathIndex := by
          obtain ⟨leftBound, leftGet⟩ := List.getElem?_eq_some_iff.mp leftHere
          obtain ⟨rightBound, rightGet⟩ := List.getElem?_eq_some_iff.mp rightHere
          exact (List.Nodup.getElem_inj_iff nodup).mp (leftGet.trans (samePath.trans rightGet.symm))
        rw [sameItem left leftAdded right rightAdded (.inr sameIndex)]

/-- The three outcomes of a point update. -/
theorem catalog_upsert_cases (catalog : SQLiteCatalog) (db : Database) (path : Path)
    (metadata : DocumentMetadata) :
    (∃ record changed,
      ((∃ old, catalog.pending.find? path = some old ∧ old.id = record.id) ∨
        ∃ old, db.findByPath path = some old ∧ old.id = record.id) ∧
      catalog.upsert db path metadata =
        ({ catalog with pending := catalog.pending.insert path record }, record.id, changed)) ∨
    (∃ id, catalog.upsert db path metadata = (catalog, id, false)) ∨
    catalog.pending.find? path = none ∧ db.findByPath path = none ∧
      catalog.upsert db path metadata =
        ({ documentCount := catalog.documentCount + 1
           nextId := catalog.nextId + 1
           pending := catalog.pending.insert path ⟨catalog.nextId, path, metadata, false⟩ },
          catalog.nextId, true) := by
  rw [SQLiteCatalog.upsert]
  cases waiting : catalog.pending.find? path with
  | some record =>
      exact .inl ⟨{ record with metadata := metadata, deleted := false }, _,
        .inl ⟨record, rfl, rfl⟩, rfl⟩
  | none =>
      cases found : db.findByPath path with
      | some record =>
          dsimp only
          split
          · exact .inl ⟨{ record with metadata := metadata, deleted := false }, true,
              .inr ⟨record, rfl, rfl⟩, rfl⟩
          · exact .inr (.inl ⟨record.id, rfl⟩)
      | none => exact .inr (.inr ⟨rfl, rfl, rfl⟩)

/-- How a point update changes entries, number and outstanding rows. -/
theorem upsert_cases (s : CatalogState) (path : Path) (metadata : DocumentMetadata) :
    (∃ record writes, s.Named record.id path ∧ s.upsert path metadata = {
        catalog := { s.catalog with pending := s.catalog.pending.insert path record }
        db := s.db
        writes := writes } ∧
      ∀ write ∈ writes, write ∈ s.writes ∨ write = ⟨record.id, path, metadata⟩) ∨
    s.upsert path metadata = s ∨
    (∀ id, ¬ s.Named id path) ∧ s.upsert path metadata = {
      catalog := {
        documentCount := s.catalog.documentCount + 1
        nextId := s.catalog.nextId + 1
        pending := s.catalog.pending.insert path ⟨s.catalog.nextId, path, metadata, false⟩ }
      db := s.db
      writes := s.writes ++ [⟨s.catalog.nextId, path, metadata⟩] } := by
  rcases catalog_upsert_cases s.catalog s.db path metadata with
    ⟨record, changed, named, result⟩ | ⟨id, result⟩ | ⟨waiting, unfound, result⟩
  · refine .inl ⟨record, _, ?_, by rw [upsert, result], fun write listed => ?_⟩
    · rcases named with ⟨old, pending, same⟩ | ⟨old, found, same⟩
      · exact .inr ⟨old, pending, same⟩
      · exact .inl ⟨_, same ▸ (Database.findByPath_spec found).1, rfl⟩
    · dsimp only at listed
      split at listed
      · exact (List.mem_append.mp listed).imp_right List.mem_singleton.mp
      · exact .inl listed
  · rw [upsert, result]
    exact .inr (.inl rfl)
  · refine .inr (.inr ⟨fun id named => ?_, by rw [upsert, result]; rfl⟩)
    rcases named with ⟨row, stored, rfl⟩ | ⟨record, pending, _⟩
    · have present := Database.isSome_findByPath stored
      rw [unfound] at present
      cases present
    · rw [waiting] at pending
      cases pending

/-- What an entry for a path names. -/
theorem named_insert (s : CatalogState) {next : CatalogState} {path other : Path} (record : DocumentRecord) {id : FileId}
    (named : next.Named id other) (db : next.db = s.db)
    (pending : next.catalog.pending = s.catalog.pending.insert path record) : s.Named id other ∨ id = record.id ∧ other = path := by
  rcases named with row | ⟨stored, found, rfl⟩
  · exact .inl (.inl (db ▸ row))
  · rw [pending, SortedMap.find?_insert] at found
    split at found
    · rename_i same
      obtain rfl := Option.some.inj found
      exact .inr ⟨rfl, same.symm⟩
    · exact .inl (.inr ⟨stored, found, rfl⟩)

theorem Distinct.upsert (distinct : s.Distinct) {path : Path} {metadata : DocumentMetadata}
    (fresh : s.NumbersNewPaths (.upsert path metadata)) : (s.upsert path metadata).Distinct := by
  rcases upsert_cases s path metadata with
    ⟨record, writes, named, after, handed⟩ | same | ⟨unnamed, after⟩
  · rw [after]
    refine distinct.shrink distinct.unique le_rfl ?_
    rintro id other (stored | ⟨write, listed, rfl, rfl⟩)
    · rcases named_insert s record stored rfl rfl with old | ⟨rfl, rfl⟩
      · exact .inl old
      · exact .inl named
    · rcases handed write listed with old | rfl
      · exact .inr ⟨write, old, rfl, rfl⟩
      · exact .inl named
  · rw [same]
    exact distinct
  · rw [after]
    have unlisted : ∀ id, ¬ s.Live id path := by
      rintro id (named | ⟨write, outstanding, _, same⟩)
      · exact unnamed id named
      · refine fresh ?_ ?_ write outstanding same
        · rintro ⟨other, row⟩
          exact unnamed other (.inl row)
        · refine Option.eq_none_iff_forall_ne_some.mpr fun record pending => ?_
          exact unnamed record.id (.inr ⟨record, pending, rfl⟩)
    refine distinct.extend distinct.unique (Nat.le_succ _)
      (fun id other => id = s.catalog.nextId ∧ other = path) ?_ ?_ ?_ ?_
    · rintro id other (stored | ⟨write, listed, rfl, rfl⟩)
      · exact (named_insert s _ stored rfl rfl).imp_left .inl
      · rcases List.mem_append.mp listed with old | new
        · exact .inl (.inr ⟨write, old, rfl, rfl⟩)
        · rw [List.mem_singleton.mp new]
          exact .inr ⟨rfl, rfl⟩
    · rintro _ _ ⟨rfl, rfl⟩
      exact ⟨le_rfl, Nat.lt_succ_self _, unlisted⟩
    · rintro _ _ _ ⟨_, rfl⟩ ⟨_, rfl⟩
      rfl
    · rintro _ _ _ ⟨rfl, _⟩ ⟨rfl, _⟩
      rfl

/-- What a committed row changes. -/
theorem commitRow_spec {position : Nat} {after : CatalogState}
    (taken : s.commitRow position = some after) :
    ∃ write, s.writes[position]? = some write ∧
      s.db.upsertDoc write.id write.path write.metadata.mtimeTicks write.metadata.size =
        some after.db ∧
      after.catalog = s.catalog ∧ after.writes = s.writes.eraseIdx position ∧
      ∀ id, after.db.docs.find? id =
        if write.id = id then
          some ⟨write.path, write.metadata.mtimeTicks, write.metadata.size, false⟩
        else s.db.docs.find? id := by
  obtain ⟨write, outstanding, built⟩ := Option.bind_eq_some_iff.mp taken
  obtain ⟨db, written, rfl⟩ := Option.map_eq_some_iff.mp built
  refine ⟨write, outstanding, written, rfl, rfl, fun id => ?_⟩
  rw [Database.upsertDoc] at written
  split at written
  · cases written
  · obtain rfl := Option.some.inj written
    exact SortedMap.find?_insert ..

theorem Distinct.commitRow (distinct : s.Distinct) {position : Nat} {after : CatalogState}
    (taken : s.commitRow position = some after) : after.Distinct := by
  obtain ⟨write, outstanding, written, catalog, writes, rows⟩ := commitRow_spec taken
  have listed : write ∈ s.writes := List.mem_of_getElem? outstanding
  refine distinct.shrink (distinct.unique.upsertDoc written) (by rw [catalog]) ?_
  rintro id path ((⟨row, found, rfl⟩ | ⟨record, found, rfl⟩) | ⟨other, otherListed, rfl, rfl⟩)
  · rw [rows] at found
    split at found
    · rename_i same
      obtain rfl := Option.some.inj found
      exact .inr ⟨write, listed, same, rfl⟩
    · exact .inl (.inl ⟨row, found, rfl⟩)
  · rw [catalog] at found
    exact .inl (.inr ⟨record, found, rfl⟩)
  · rw [writes] at otherListed
    exact .inr ⟨other, List.mem_of_mem_eraseIdx otherListed, rfl, rfl⟩

theorem Distinct.failRow (distinct : s.Distinct) (position : Nat) :
    ({ s with writes := s.writes.eraseIdx position } : CatalogState).Distinct := by
  refine distinct.shrink distinct.unique le_rfl ?_
  rintro id path (named | ⟨write, listed, rfl, rfl⟩)
  · exact .inl named
  · exact .inr ⟨write, List.mem_of_mem_eraseIdx listed, rfl, rfl⟩

/-- `notePersisted` at most removes the entry of its path. -/
theorem find?_notePersisted (catalog : SQLiteCatalog) (path other : Path) (id : FileId) :
    (catalog.notePersisted path id).pending.find? other = catalog.pending.find? other ∨
      other = path ∧ (catalog.notePersisted path id).pending.find? other = none := by
  rw [SQLiteCatalog.notePersisted]
  split
  · split
    · rw [SortedMap.find?_erase]
      split
      · rename_i same
        exact .inr ⟨same.symm, rfl⟩
      · exact .inl rfl
    · exact .inl rfl
  · exact .inl rfl

/-- The counters are left alone by `notePersisted`. -/
theorem counters_notePersisted (catalog : SQLiteCatalog) (path : Path) (id : FileId) :
    (catalog.notePersisted path id).nextId = catalog.nextId ∧
      (catalog.notePersisted path id).documentCount = catalog.documentCount := by
  rw [SQLiteCatalog.notePersisted]
  split
  · split <;> exact ⟨rfl, rfl⟩
  · exact ⟨rfl, rfl⟩

theorem named_notePersisted {path other : Path} {id number : FileId}
    (named : ({ s with catalog := s.catalog.notePersisted path id } : CatalogState).Named number other) :
    s.Named number other := by
  rcases named with row | ⟨record, found, same⟩
  · exact .inl row
  · rcases find?_notePersisted s.catalog path other id with kept | ⟨-, removed⟩
    · exact .inr ⟨record, kept.symm.trans found, same⟩
    · rw [removed] at found
      cases found

theorem Distinct.notePersisted (distinct : s.Distinct) (path : Path) (id : FileId) :
    ({ s with catalog := s.catalog.notePersisted path id } : CatalogState).Distinct := by
  refine distinct.shrink distinct.unique (counters_notePersisted s.catalog path id).1.ge ?_
  rintro number other (named | outstanding)
  · exact .inl (named_notePersisted named)
  · exact .inr outstanding

/-- A deletion mark keeps the path of every row. -/
theorem path_markDeleted {db : Database} {marked id : FileId} {path : Path} :
    (∃ row, (db.markDeleted marked).docs.find? id = some row ∧ row.path = path) ↔
      ∃ row, db.docs.find? id = some row ∧ row.path = path := by
  rw [Database.markDeleted, SortedMap.find?_modify]
  split
  · cases db.docs.find? id with
    | none => simp
    | some row => simp
  · rfl

theorem Distinct.markDeleted (distinct : s.Distinct) (id : FileId) :
    ({ s with db := s.db.markDeleted id } : CatalogState).Distinct := by
  refine distinct.shrink (distinct.unique.markDeleted id) le_rfl ?_
  rintro number path ((row | pending) | outstanding)
  · exact .inl (.inl (path_markDeleted.mp row))
  · exact .inl (.inr pending)
  · exact .inr outstanding

/-- Every step that numbers only new paths keeps the numbers distinct. -/
theorem Distinct.step (distinct : s.Distinct) {action : Action} {after : CatalogState}
    (fresh : s.NumbersNewPaths action) (taken : s.step action = some after) : after.Distinct := by
  cases action with
  | scan stat scanned => exact Option.some.inj taken ▸ distinct.scan fresh
  | upsert path metadata => exact Option.some.inj taken ▸ distinct.upsert fresh
  | commitRow position => exact distinct.commitRow taken
  | failRow position => exact Option.some.inj taken ▸ distinct.failRow position
  | notePersisted path id =>
      simp only [CatalogState.step] at taken
      split at taken
      · exact Option.some.inj taken ▸ distinct.notePersisted path id
      · cases taken
  | markDeleted id => exact Option.some.inj taken ▸ distinct.markDeleted id

theorem distinct_opened {db : Database} (unique : db.PathsUnique) : (opened db).Distinct where
  unique := unique
  below := by
    rintro id path ((⟨row, found, -⟩ | ⟨record, found, -⟩) | ⟨write, listed, -⟩)
    · exact SortedMap.lt_nextKey_of_find? found
    · cases found
    · cases listed
  onePath := by
    rintro id left right ((⟨leftRow, leftFound, rfl⟩ | ⟨record, found, -⟩) | ⟨write, listed, -⟩)
      ((⟨rightRow, rightFound, rfl⟩ | ⟨record, found, -⟩) | ⟨write, listed, -⟩)
    · rw [leftFound] at rightFound
      rw [Option.some.inj rightFound]
    all_goals first | cases found | cases listed
  oneNumber := by
    rintro left right path ((⟨leftRow, leftFound, rfl⟩ | ⟨record, found, -⟩) | ⟨write, listed, -⟩)
      ((⟨rightRow, rightFound, same⟩ | ⟨record, found, -⟩) | ⟨write, listed, -⟩)
    · exact unique left right leftRow rightRow leftFound rightFound same.symm
    all_goals first | cases found | cases listed

/-! ## The document counter -/

/-- Outstanding rows have an entry or a row, and the counter agrees. -/
structure Recorded (s : CatalogState) : Prop extends s.Distinct where
  recorded : ∀ write ∈ s.writes, s.Named write.id write.path
  size : s.catalog.documentCount = s.db.docs.entries.length + s.unwritten.length

theorem Recorded.agreesWithDatabase (recorded : s.Recorded) : s.AgreesWithDatabase :=
  ⟨recorded.toDistinct.numbersUnique, recorded.size⟩

theorem mem_unwritten {path : Path} : path ∈ s.unwritten ↔
    (∃ record, s.catalog.pending.find? path = some record) ∧
      ∀ id, ¬ ∃ row, s.db.docs.find? id = some row ∧ row.path = path := by
  rw [unwritten, List.mem_filter, SortedMap.mem_keys_iff, Option.isNone_iff_eq_none,
    findByPath_eq_none_iff]

theorem nodup_unwritten (s : CatalogState) : s.unwritten.Nodup :=
  s.catalog.pending.keys_nodup.filter _

/-- The number of unwritten paths is that of another state with the same ones. -/
theorem length_unwritten_congr {next : CatalogState}
    (same : ∀ path, path ∈ next.unwritten ↔ path ∈ s.unwritten) :
    next.unwritten.length = s.unwritten.length :=
  ((List.perm_ext_iff_of_nodup (nodup_unwritten next) (nodup_unwritten s)).mpr same).length_eq

/-- One unwritten path more. -/
theorem length_unwritten_succ {next : CatalogState} (path : Path) (fresh : path ∉ s.unwritten)
    (same : ∀ other, other ∈ next.unwritten ↔ other = path ∨ other ∈ s.unwritten) :
    next.unwritten.length = s.unwritten.length + 1 := by
  have perm : next.unwritten.Perm (path :: s.unwritten) := by
    rw [List.perm_ext_iff_of_nodup (nodup_unwritten next)
      (List.nodup_cons.mpr ⟨fresh, nodup_unwritten s⟩)]
    intro other
    rw [List.mem_cons]
    exact same other
  rw [perm.length_eq, List.length_cons]

/-- The number of rows is that of another table with the same numbers. -/
theorem length_docs_congr {left right : Database}
    (same : ∀ id, id ∈ left.docs.keys ↔ id ∈ right.docs.keys) :
    left.docs.entries.length = right.docs.entries.length := by
  have keys := congrArg List.length (SortedMap.keys_eq_of_mem_iff same)
  rwa [SortedMap.keys, SortedMap.keys, List.length_map, List.length_map] at keys

/-- A row under a new number. -/
theorem length_docs_succ {left right : Database} {new : FileId} (fresh : new ∉ right.docs.keys)
    (same : ∀ id, id ∈ left.docs.keys ↔ id = new ∨ id ∈ right.docs.keys) :
    left.docs.entries.length = right.docs.entries.length + 1 := by
  have perm : left.docs.keys.Perm (new :: right.docs.keys) := by
    rw [List.perm_ext_iff_of_nodup left.docs.keys_nodup
      (List.nodup_cons.mpr ⟨fresh, right.docs.keys_nodup⟩)]
    intro id
    rw [List.mem_cons]
    exact same id
  have length := perm.length_eq
  rwa [List.length_cons, SortedMap.keys, SortedMap.keys, List.length_map, List.length_map] at length

/-- A scan of known paths numbers nothing. -/
theorem Recorded.numbersNewPaths (recorded : s.Recorded) (action : Action)
    (known : s.ScansKnownPaths action) : s.NumbersNewPaths action := by
  cases action with
  | scan stat scanned =>
      intro reports path member unknown
      exact absurd (known reports path member) unknown
  | upsert path metadata =>
      intro unknown unpending write outstanding same
      obtain ⟨row, stored⟩ | ⟨record, pending, -⟩ := same ▸ recorded.recorded write outstanding
      · exact unknown ⟨write.id, row, stored⟩
      · rw [unpending] at pending
        cases pending
  | commitRow position => trivial
  | failRow position => trivial
  | notePersisted path id => trivial
  | markDeleted id => trivial

theorem Recorded.scan (recorded : s.Recorded) {stat : Stat} {scanned : List Path}
    (known : s.ScansKnownPaths (.scan stat scanned)) : (s.scan stat scanned).Recorded := by
  refine ⟨recorded.toDistinct.scan (recorded.numbersNewPaths _ known), ?_, ?_⟩
  all_goals
    cases reported : (s.catalog.scan s.db stat scanned).2 with
    | none =>
        rw [scan_of_none reported]
        first | exact recorded.recorded | exact recorded.size
    | some diff => ?_
  · obtain ⟨_, spec, -, -⟩ := SQLiteCatalog.scan_of_some reported
    rw [scan_of_some reported, (added_eq_nil_iff reported).mpr (known (reports_iff.mpr ⟨diff, reported⟩))]
    intro write listed
    rcases List.mem_append.mp listed with old | handed
    · exact recorded.recorded write old
    · obtain ⟨item, isUpdated, rfl⟩ := List.mem_map.mp handed
      obtain ⟨path, record, here, found, sameId, _⟩ := spec.of_updated isUpdated
      refine .inl ⟨_, sameId ▸ (Database.findByPath_spec found).1, ?_⟩
      change path = scanned.getD item.pathIndex []
      rw [List.getD_eq_getElem?_getD, here, Option.getD_some]
  · rw [scan_of_some reported, (added_eq_nil_iff reported).mpr (known (reports_iff.mpr ⟨diff, reported⟩))]
    exact recorded.size

/-- An entry for a path names no less than before. -/
theorem Named.insert {next : CatalogState} {path other : Path} {record : DocumentRecord} {id : FileId}
    (named : s.Named id other) (db : next.db = s.db)
    (pending : next.catalog.pending = s.catalog.pending.insert path record)
    (replaced : ∀ old, s.catalog.pending.find? path = some old → old.id = record.id) :
    next.Named id other := by
  rcases named with row | ⟨stored, found, rfl⟩
  · exact .inl (db ▸ row)
  · refine .inr ?_
    rw [pending, SortedMap.find?_insert]
    split
    · rename_i same
      exact ⟨record, rfl, (replaced stored (same ▸ found)).symm⟩
    · exact ⟨stored, found, rfl⟩

theorem Recorded.upsert (recorded : s.Recorded) (path : Path) (metadata : DocumentMetadata) :
    (s.upsert path metadata).Recorded := by
  have distinct : (s.upsert path metadata).Distinct :=
    recorded.toDistinct.upsert (recorded.numbersNewPaths (.upsert path metadata) trivial)
  rcases upsert_cases s path metadata with
    ⟨record, writes, named, after, handed⟩ | same | ⟨unnamed, after⟩
  · rw [after] at distinct ⊢
    have replaced : ∀ old, s.catalog.pending.find? path = some old → old.id = record.id :=
      fun old found => recorded.oneNumber _ _ path (.inl (.inr ⟨old, found, rfl⟩)) (.inl named)
    refine ⟨distinct, fun write listed => ?_, ?_⟩
    · rcases handed write listed with old | rfl
      · exact (recorded.recorded write old).insert rfl rfl replaced
      · exact named.insert rfl rfl replaced
    · have unwritten : (⟨{ s.catalog with pending := s.catalog.pending.insert path record }, s.db,
          writes⟩ : CatalogState).unwritten.length = s.unwritten.length := by
        refine length_unwritten_congr fun other => ?_
        rw [mem_unwritten, mem_unwritten, SortedMap.find?_insert]
        split
        · rename_i here
          subst here
          -- a path with a number has an entry already or has a row
          refine ⟨fun ⟨_, noRow⟩ => ⟨?_, noRow⟩, fun ⟨_, noRow⟩ => ⟨⟨record, rfl⟩, noRow⟩⟩
          rcases named with row | ⟨old, found, _⟩
          · exact absurd row (noRow _)
          · exact ⟨old, found⟩
        · rfl
      exact recorded.size.trans (by rw [unwritten])
  · rw [same]
    exact recorded
  · rw [after] at distinct ⊢
    have vacant : ∀ old, s.catalog.pending.find? path = some old → old.id = s.catalog.nextId :=
      fun old found => absurd (.inr ⟨old, found, rfl⟩) (unnamed old.id)
    refine ⟨distinct, fun write listed => ?_, ?_⟩
    · rcases List.mem_append.mp listed with old | new
      · exact (recorded.recorded write old).insert rfl rfl vacant
      · rw [List.mem_singleton.mp new]
        refine .inr ⟨⟨s.catalog.nextId, path, metadata, false⟩, ?_, rfl⟩
        exact (SortedMap.find?_insert ..).trans (if_pos rfl)
    · have unwritten : (⟨⟨s.catalog.documentCount + 1, s.catalog.nextId + 1,
          s.catalog.pending.insert path ⟨s.catalog.nextId, path, metadata, false⟩⟩, s.db,
          s.writes ++ [⟨s.catalog.nextId, path, metadata⟩]⟩ : CatalogState).unwritten.length =
          s.unwritten.length + 1 := by
        refine length_unwritten_succ path (fun present => ?_) fun other => ?_
        · obtain ⟨⟨record, found⟩, _⟩ := mem_unwritten.mp present
          exact unnamed record.id (.inr ⟨record, found, rfl⟩)
        · rw [mem_unwritten, mem_unwritten, SortedMap.find?_insert]
          split
          · rename_i here
            subst here
            exact ⟨fun _ => .inl rfl, fun _ => ⟨⟨_, rfl⟩, fun id row => unnamed id (.inl row)⟩⟩
          · rename_i elsewhere
            exact ⟨.inr, fun either => either.resolve_left (Ne.symm elsewhere)⟩
      change s.catalog.documentCount + 1 = s.db.docs.entries.length + _
      rw [unwritten, recorded.size, Nat.add_assoc]

/-- A committed row has a number of its own, or replaces the row of its number. -/
theorem Recorded.commitRow (recorded : s.Recorded) {position : Nat} {after : CatalogState}
    (taken : s.commitRow position = some after) : after.Recorded := by
  obtain ⟨write, outstanding, _, catalog, writes, rows⟩ := commitRow_spec taken
  have listed : write ∈ s.writes := List.mem_of_getElem? outstanding
  have named : s.Named write.id write.path := recorded.recorded write listed
  have rowNamed : ∀ id path, (∃ row, after.db.docs.find? id = some row ∧ row.path = path) ↔
      (id = write.id ∧ path = write.path) ∨
        ∃ row, s.db.docs.find? id = some row ∧ row.path = path := by
    intro id path
    rw [rows]
    split
    · rename_i same
      subst same
      constructor
      · rintro ⟨row, found, rfl⟩
        obtain rfl := Option.some.inj found
        exact .inl ⟨rfl, rfl⟩
      · rintro (⟨_, rfl⟩ | stored)
        · exact ⟨_, rfl, rfl⟩
        · exact ⟨_, rfl, recorded.onePath _ _ _ (.inl named) (.inl (.inl stored))⟩
    · rename_i differs
      exact ⟨.inr, fun either => either.resolve_left fun both => differs both.1.symm⟩
  have keys : ∀ id, id ∈ after.db.docs.keys ↔ id = write.id ∨ id ∈ s.db.docs.keys := by
    intro id
    rw [SortedMap.mem_keys_iff, SortedMap.mem_keys_iff, rows]
    split
    · rename_i same
      exact ⟨fun _ => .inl same.symm, fun _ => ⟨_, rfl⟩⟩
    · rename_i differs
      exact ⟨.inr, fun either => either.resolve_left (Ne.symm differs)⟩
  refine ⟨recorded.toDistinct.commitRow taken, fun other otherListed => ?_, ?_⟩
  · rw [writes] at otherListed
    rcases recorded.recorded other (List.mem_of_mem_eraseIdx otherListed) with row | pending
    · exact .inl ((rowNamed _ _).mpr (.inr row))
    · exact .inr (catalog ▸ pending)
  · by_cases present : write.id ∈ s.db.docs.keys
    · obtain ⟨row, found⟩ := SortedMap.mem_keys_iff.mp present
      have samePath : row.path = write.path :=
        recorded.onePath _ _ _ (.inl (.inl ⟨row, found, rfl⟩)) (.inl named)
      have docs : after.db.docs.entries.length = s.db.docs.entries.length :=
        length_docs_congr fun id =>
          (keys id).trans (or_iff_right_of_imp fun same => same ▸ present)
      have unwritten : after.unwritten.length = s.unwritten.length := by
        refine length_unwritten_congr fun path => ?_
        rw [mem_unwritten, mem_unwritten, catalog]
        refine and_congr_right fun _ => forall_congr' fun id => not_congr ?_
        rw [rowNamed]
        refine or_iff_right_of_imp ?_
        rintro ⟨rfl, rfl⟩
        exact ⟨row, found, samePath⟩
      rw [catalog, docs, unwritten]
      exact recorded.size
    · have docs : after.db.docs.entries.length = s.db.docs.entries.length + 1 :=
        length_docs_succ present keys
      have noRow : ∀ id, ¬ ∃ row, s.db.docs.find? id = some row ∧ row.path = write.path := by
        rintro id ⟨row, found, same⟩
        have sameId := recorded.oneNumber _ _ _ (.inl (.inl ⟨row, found, same⟩)) (.inl named)
        exact present (SortedMap.mem_keys_iff.mpr ⟨row, sameId ▸ found⟩)
      have pending : ∃ record, s.catalog.pending.find? write.path = some record := by
        rcases named with row | ⟨record, found, _⟩
        · exact absurd row (noRow _)
        · exact ⟨record, found⟩
      have unwritten : s.unwritten.length = after.unwritten.length + 1 := by
        refine length_unwritten_succ write.path (fun waiting => ?_) fun path => ?_
        · exact (mem_unwritten.mp waiting).2 write.id ((rowNamed _ _).mpr (.inl ⟨rfl, rfl⟩))
        · rw [mem_unwritten, mem_unwritten, catalog]
          constructor
          · rintro ⟨entry, unnamed⟩
            refine or_iff_not_imp_left.mpr fun differs => ⟨entry, fun id row => ?_⟩
            rcases (rowNamed _ _).mp row with ⟨-, same⟩ | old
            · exact differs same
            · exact unnamed id old
          · rintro (rfl | ⟨entry, unnamed⟩)
            · exact ⟨pending, noRow⟩
            · exact ⟨entry, fun id row => unnamed id ((rowNamed _ _).mpr (.inr row))⟩
      have size := recorded.size
      rw [catalog, docs]
      omega

theorem Recorded.failRow (recorded : s.Recorded) (position : Nat) :
    ({ s with writes := s.writes.eraseIdx position } : CatalogState).Recorded :=
  ⟨recorded.toDistinct.failRow position,
    fun write listed => recorded.recorded write (List.mem_of_mem_eraseIdx listed), recorded.size⟩

/-- An entry is dropped only when its path has a row. -/
theorem Recorded.notePersisted (recorded : s.Recorded) {path : Path} {id : FileId}
    (persisted : (s.db.docs.find? id).map DocRow.path = some path) :
    ({ s with catalog := s.catalog.notePersisted path id } : CatalogState).Recorded := by
  obtain ⟨row, found, samePath⟩ := Option.map_eq_some_iff.mp persisted
  refine ⟨recorded.toDistinct.notePersisted path id, fun write listed => ?_, ?_⟩
  · rcases recorded.recorded write listed with named | ⟨record, pending, same⟩
    · exact .inl named
    · rcases find?_notePersisted s.catalog path write.path id with kept | ⟨here, -⟩
      · exact .inr ⟨record, kept.trans pending, same⟩
      · have sameId := recorded.oneNumber _ _ _ (.inl (.inl ⟨row, found, samePath⟩))
          (.inl (.inr ⟨record, here ▸ pending, rfl⟩))
        refine .inl ⟨row, ?_, samePath.trans here.symm⟩
        rw [← same, ← sameId]
        exact found
  · have unwritten : ({ s with catalog := s.catalog.notePersisted path id } :
        CatalogState).unwritten.length = s.unwritten.length := by
      refine length_unwritten_congr fun other => ?_
      rw [mem_unwritten, mem_unwritten]
      rcases find?_notePersisted s.catalog path other id with kept | ⟨here, removed⟩
      · rw [kept]
      · rw [removed]
        refine iff_of_false (fun both => ?_) fun both => ?_
        · exact both.1.elim fun _ none => by cases none
        · exact both.2 id ⟨row, found, samePath.trans here.symm⟩
    rw [unwritten, (counters_notePersisted s.catalog path id).2]
    exact recorded.size

theorem Recorded.markDeleted (recorded : s.Recorded) (id : FileId) :
    ({ s with db := s.db.markDeleted id } : CatalogState).Recorded := by
  refine ⟨recorded.toDistinct.markDeleted id, fun write listed => ?_, ?_⟩
  · exact (recorded.recorded write listed).imp_left path_markDeleted.mpr
  · have docs : (s.db.markDeleted id).docs.entries.length = s.db.docs.entries.length := by
      refine length_docs_congr fun other => ?_
      rw [SortedMap.mem_keys_iff, SortedMap.mem_keys_iff, Database.markDeleted,
        SortedMap.find?_modify]
      split
      · cases s.db.docs.find? other with
        | none => simp
        | some row => simp
      · rfl
    have unwritten : ({ s with db := s.db.markDeleted id } : CatalogState).unwritten.length =
        s.unwritten.length := by
      refine length_unwritten_congr fun path => ?_
      rw [mem_unwritten, mem_unwritten]
      exact and_congr_right fun _ => forall_congr' fun _ => not_congr path_markDeleted
    rw [docs, unwritten]
    exact recorded.size

theorem Recorded.step (recorded : s.Recorded) {action : Action} {after : CatalogState}
    (known : s.ScansKnownPaths action) (taken : s.step action = some after) : after.Recorded := by
  cases action with
  | scan stat scanned => exact Option.some.inj taken ▸ recorded.scan known
  | upsert path metadata => exact Option.some.inj taken ▸ recorded.upsert path metadata
  | commitRow position => exact recorded.commitRow taken
  | failRow position => exact Option.some.inj taken ▸ recorded.failRow position
  | notePersisted path id =>
      simp only [CatalogState.step] at taken
      split at taken
      · rename_i persisted
        exact Option.some.inj taken ▸ recorded.notePersisted persisted
      · cases taken
  | markDeleted id => exact Option.some.inj taken ▸ recorded.markDeleted id

theorem recorded_opened {db : Database} (unique : db.PathsUnique) : (opened db).Recorded :=
  ⟨distinct_opened unique, fun _ listed => absurd listed List.not_mem_nil, rfl⟩

/-- A scan that adds a document counts it without a row or an entry. -/
theorem Recorded.not_agrees_of_added (recorded : s.Recorded) {action : Action}
    (unknown : ¬ s.ScansKnownPaths action) :
    ∃ next, s.step action = some next ∧ ¬ next.AgreesWithDatabase := by
  cases action with
  | scan stat scanned =>
      obtain ⟨reports, unlisted⟩ := Classical.not_imp.mp unknown
      obtain ⟨diff, reported⟩ := reports_iff.mp reports
      have added : diff.added ≠ [] := fun nothing => unlisted ((added_eq_nil_iff reported).mp nothing)
      refine ⟨s.scan stat scanned, rfl, fun agrees => ?_⟩
      have size := agrees.size
      rw [scan_of_some reported] at size
      have grown : s.catalog.documentCount + diff.added.length =
          s.db.docs.entries.length + s.unwritten.length := size
      have before := recorded.size
      have positive := List.length_pos_iff.mpr added
      omega
  | upsert path metadata => exact absurd trivial unknown
  | commitRow position => exact absurd trivial unknown
  | failRow position => exact absurd trivial unknown
  | notePersisted path id => exact absurd trivial unknown
  | markDeleted id => exact absurd trivial unknown

/-! ## When the catalog agrees with the database -/

/-- The catalog agrees with the database in every state of a run exactly when every
scan lists only paths that have a row. Numbers and paths stay in one-to-one
correspondence, and every outstanding row can be written, already when new numbers
go to paths that are neither pending nor outstanding. -/
theorem agreesWithDatabase_iff {db : Database} (unique : db.PathsUnique) (schedule : List Action) :
    (machine.Throughout AgreesWithDatabase (opened db) schedule ↔
      machine.Conforms ScansKnownPaths (opened db) schedule) ∧
    (machine.Conforms NumbersNewPaths (opened db) schedule →
      machine.Throughout NumbersUnique (opened db) schedule) := by
  have recordedKept : ∀ (state : CatalogState) action next, state.Recorded →
      state.ScansKnownPaths action → machine.step state action = some next → next.Recorded :=
    fun _ _ _ recorded known taken => recorded.step known taken
  have distinctKept : ∀ (state : CatalogState) action next, state.Distinct →
      state.NumbersNewPaths action → machine.step state action = some next → next.Distinct :=
    fun _ _ _ distinct fresh taken => distinct.step fresh taken
  constructor
  · exact Machine.throughout_iff_conforms (fun _ recorded => recorded.agreesWithDatabase) recordedKept
      (fun _ _ recorded unknown => recorded.not_agrees_of_added unknown) (recorded_opened unique)
  · exact Machine.throughout_of_conforms (fun _ distinct => distinct.numbersUnique) distinctKept
      (distinct_opened unique)

/-- A new database: a point update whose row is committed, and a scan that lists
the file again. -/
def updatedThenScanned : List Action :=
  [.upsert ['a'] ⟨1, 5⟩, .commitRow 0, .notePersisted ['a'] 0,
   .scan (fun _ => some ⟨2, 6⟩) [['a']], .commitRow 0]

theorem agreesWithDatabase_iff_updatedThenScanned :
    (machine.Throughout AgreesWithDatabase (opened .empty) updatedThenScanned ↔
      machine.Conforms ScansKnownPaths (opened .empty) updatedThenScanned) ∧
    (machine.Conforms NumbersNewPaths (opened .empty) updatedThenScanned →
      machine.Throughout NumbersUnique (opened .empty) updatedThenScanned) :=
  agreesWithDatabase_iff (fun _ _ _ _ found => by cases found) updatedThenScanned

/-- A point update whose indexing fails, a scan of the same file, the commit of
its row, and another point update. -/
def failedThenScanned : List Action :=
  [.upsert ['a'] ⟨1, 5⟩, .failRow 0, .scan (fun _ => some ⟨1, 5⟩) [['a']], .commitRow 0,
   .upsert ['a'] ⟨2, 6⟩]

/-- The path ends with the entry number 0 and the row number 1, the row of the last
point update violates the unique index, and two documents are counted for one row. -/
theorem not_agreesWithDatabase_failedThenScanned :
    (∃ final, machine.run (opened .empty) failedThenScanned = some final ∧
      final.Named 0 ['a'] ∧ final.Named 1 ['a'] ∧
      (∃ write ∈ final.writes, final.db.upsertDoc write.id write.path write.metadata.mtimeTicks
        write.metadata.size = none) ∧
      final.catalog.documentCount = 2 ∧
      final.db.docs.entries.length + final.unwritten.length = 1) ∧
    ¬ machine.Throughout AgreesWithDatabase (opened .empty) failedThenScanned := by
  have ends : (machine.run (opened .empty) failedThenScanned).map (fun final =>
      ((final.catalog.pending.find? ['a']).map DocumentRecord.id,
        (final.db.docs.find? 1).map DocRow.path, final.writes,
        final.db.pathTaken 0 ['a'], final.catalog.documentCount,
        final.db.docs.entries.length + final.unwritten.length)) =
      some (some 0, some ['a'], [⟨0, ['a'], ⟨2, 6⟩⟩], true, 2, 1) := by
    rfl
  obtain ⟨final, done, seen⟩ := Option.map_eq_some_iff.mp ends
  simp only [Prod.mk.injEq] at seen
  obtain ⟨entry, row, writes, taken, counted, stored⟩ := seen
  have unwritable : final.db.upsertDoc 0 ['a'] 2 6 = none := by
    rw [Database.upsertDoc, if_pos taken]
  refine ⟨⟨final, done, .inr (Option.map_eq_some_iff.mp entry), .inl ?_, ⟨⟨0, ['a'], ⟨2, 6⟩⟩, ?_,
    unwritable⟩, counted, stored⟩, fun throughout => ?_⟩
  · obtain ⟨found, here, path⟩ := Option.map_eq_some_iff.mp row
    exact ⟨found, here, path⟩
  · rw [writes]
    exact List.mem_singleton_self _
  · have agrees := throughout.final done
    have size := agrees.size
    omega

end CatalogState

end SearchEngine.Index
