import SearchEngine.Index.MirrorSave
import SearchEngine.Index.WriteBatch

/-!
# Installing a batch snapshot

`installBatchSnapshot` stages the documents in the catalog, replaces the words, the
postings and the references in memory and saves all of it. When saving throws before the
catalog commits, what was moved aside is put back and the catalog rolls back.
-/

namespace SearchEngine.Index

open SearchEngine.Lib

/-- What `installBatchSnapshot` takes of a `BatchIndexSnapshot`; `wordIds` is its pair of
word tables. -/
structure BatchSnapshot where
  documentMetadata : List DocumentMetadata
  wordIds : WordIdManager
  postings : List PostingList
  wordRefs : SortedMap FileId (List WordId)

/-- The rows of a snapshot: every path under its position. -/
def snapshotRows (paths : List Path) (metadata : List DocumentMetadata) : List DocPaths.RawRow :=
  (paths.zip metadata).zipIdx.map fun entry =>
    ⟨entry.2, entry.1.1, entry.1.2.mtimeTicks, entry.1.2.size, false⟩

/-- What `findByPath` reports of a row. -/
def DocPaths.RawRow.record (row : DocPaths.RawRow) : DocumentRecord :=
  ⟨row.id, row.path, ⟨row.mtimeTicks, row.fsize⟩, row.deleted⟩

/-! ## Staged catalogs -/

/-- A catalog between `stageBatchSnapshot` and its commit or its rollback. -/
inductive StagedCatalog where
  | memory (paths rollback : DocPaths)
  | sqlite (catalog : SQLiteCatalog) (stagedPaths : List Path) (stagedMetadata : List DocumentMetadata)
      (stagedOldCount : Nat) (stagedOldNextId : FileId)

namespace DocumentCatalog

/-- `DocumentCatalog::size`. -/
def size : DocumentCatalog → Nat
  | memory paths => paths.path2info.entries.length
  | sqlite state => state.documentCount

/-- `stageBatchSnapshot`; `none` is a thrown error. -/
def stageBatchSnapshot (catalog : DocumentCatalog) (paths : List Path) (metadata : List DocumentMetadata) :
    Option StagedCatalog :=
  if paths.length ≠ metadata.length then none
  else
    match catalog with
    | memory documents => some (.memory (DocPaths.rebuildFromRawRows (snapshotRows paths metadata)) documents.copied)
    | sqlite state => some (.sqlite { state with documentCount := paths.length, nextId := paths.length }
        paths metadata state.documentCount state.nextId)

end DocumentCatalog

namespace StagedCatalog

/-- `visitRows` of a staged catalog. -/
def visitRows : StagedCatalog → List DocPaths.RawRow
  | memory paths _ => paths.exportRows
  | sqlite _ stagedPaths stagedMetadata _ _ => snapshotRows stagedPaths stagedMetadata

def commitStagedBatch : StagedCatalog → DocumentCatalog
  | memory paths _ => .memory paths
  | sqlite catalog _ _ _ _ => .sqlite catalog

/-- `rollbackStagedBatch`; the copy is moved back. -/
def rollbackStagedBatch : StagedCatalog → DocumentCatalog
  | memory _ rollback => .memory rollback.copied
  | sqlite catalog _ _ count nextId => .sqlite { catalog with documentCount := count, nextId := nextId }

end StagedCatalog

/-! ## The installation -/

/-- The index with its catalog, its database and the writes queued for the database. -/
structure IndexStore where
  index : InvertedIndex
  catalog : DocumentCatalog
  db : Database
  queue : List LiveMirrorOp

/-- What fails during an installation. `order` is the order in which the writer takes the
queued documents. -/
structure InstallFaults where
  ensureSerializer : Bool
  flush : Bool
  order : IterationOrder
  save : Database.SaveCall → Bool
  checkpoint : Bool

/-- Nothing fails. -/
def InstallFaults.none : InstallFaults := ⟨false, false, .increasing, fun _ => false, false⟩

/-- How the call ends. `refused` is an error of `stageBatchSnapshot`, `failedSave` an error
before the catalog commits, `failedCheckpoint` one after it. -/
inductive InstallOutcome where
  | returned
  | refused
  | failedSave
  | failedCheckpoint
deriving DecidableEq

/-- `flushPending` on the queued writes; `none` is a thrown error. -/
def flushQueue (faults : InstallFaults) (db : Database) (queue : List LiveMirrorOp) : Option Database :=
  if faults.flush then none else db.writeBatch faults.order queue

/-- `saveFullSnapshot`: the database afterwards, and whether it returned. -/
def saveFullSnapshot (faults : InstallFaults) (db : Database) (queue : List LiveMirrorOp) (index : InvertedIndex)
    (rows : List DocPaths.RawRow) : Database × Bool :=
  if faults.ensureSerializer then (db, false)
  else
    match flushQueue faults db queue with
    | none => (db, false)
    | some flushed =>
        match flushed.save faults.save index rows with
        | none => (flushed, false)
        | some saved => (saved, true)

/-- The index in memory after the swap. -/
def BatchSnapshot.installed (snapshot : BatchSnapshot) : InvertedIndex where
  wordIds := snapshot.wordIds
  dictionaryChunks := []
  dictionary := snapshot.postings
  wordRefs := snapshot.wordRefs

/-- `installBatchSnapshot`: what is left behind, and how the call ended. -/
def installBatchSnapshot (faults : InstallFaults) (s : IndexStore) (snapshot : BatchSnapshot) (paths : List Path) :
    IndexStore × InstallOutcome :=
  match s.catalog.stageBatchSnapshot paths snapshot.documentMetadata with
  | none => (s, .refused)
  | some staged =>
      match saveFullSnapshot faults s.db s.queue snapshot.installed staged.visitRows with
      | (db, false) => (⟨s.index, staged.rollbackStagedBatch, db, []⟩, .failedSave)
      | (db, true) => (⟨snapshot.installed, staged.commitStagedBatch, db, []⟩,
          if faults.checkpoint then .failedCheckpoint else .returned)

/-! ## What is asked of it -/

/-- Memory, catalog and database hold the snapshot. -/
structure IndexStore.Describes (after : IndexStore) (snapshot : BatchSnapshot) (paths : List Path) : Prop where
  words : after.index.wordIds = snapshot.wordIds
  postings : ∀ wordId, after.index.activePosting wordId = snapshot.postings.getD wordId ∅
  references : after.index.wordRefs = snapshot.wordRefs
  records : ∀ path record, after.catalog.findByPath after.db path = some record ↔
    ∃ row ∈ snapshotRows paths snapshot.documentMetadata, row.record = record ∧ row.path = path
  size : after.catalog.size = paths.length
  nextId : after.catalog.nextId = paths.length
  storedWords : ∀ wordId, after.db.words.find? wordId = snapshot.wordIds.byId wordId
  storedDocs : ∀ id stored, after.db.docs.find? id = some stored ↔
    ∃ row ∈ snapshotRows paths snapshot.documentMetadata, row.id = id ∧ row.docRow = stored
  storedPostings : ∀ wordId fileId,
    after.db.posting wordId fileId = (snapshot.postings.getD wordId ∅).find? fileId

/-- Index, catalog and database are what they were. -/
def IndexStore.Unchanged (s after : IndexStore) : Prop :=
  after.index = s.index ∧ after.catalog = s.catalog ∧ after.db = s.db

/-- A call that returns leaves the snapshot everywhere, and one that fails before the
catalog commits leaves nothing of it. -/
def InstallExact (faults : InstallFaults) (s : IndexStore) (snapshot : BatchSnapshot) (paths : List Path) : Prop :=
  ((installBatchSnapshot faults s snapshot paths).2 = .returned →
      (installBatchSnapshot faults s snapshot paths).1.Describes snapshot paths) ∧
    ((installBatchSnapshot faults s snapshot paths).2 = .refused ∨
        (installBatchSnapshot faults s snapshot paths).2 = .failedSave →
      s.Unchanged (installBatchSnapshot faults s snapshot paths).1)

/-- Nothing queued changes the database, and the table of a catalog in memory is the one
its entries give. -/
structure IndexStore.Undoable (s : IndexStore) : Prop where
  flushed : ∀ order db, s.db.writeBatch order s.queue = some db → db = s.db
  numbered : ∀ documents, s.catalog = .memory documents → documents.copied = documents

/-- When the database can be written at all, a catalog in memory gets distinct paths, and
the pending records of an SQLite catalog are those of the snapshot. -/
def IndexStore.Replaceable (s : IndexStore) (snapshot : BatchSnapshot) (paths : List Path) : Prop :=
  s.db.SchemaAccepted → (∃ order, (s.db.writeBatch order s.queue).isSome) →
    match s.catalog with
    | .memory _ => paths.Nodup
    | .sqlite state => paths.Nodup → ∀ path record, state.pending.find? path = some record →
        ∃ row ∈ snapshotRows paths snapshot.documentMetadata, row.record = record ∧ row.path = path

/-! ## Rows of a snapshot -/

section Rows

variable {paths : List Path} {metadata : List DocumentMetadata}

theorem snapshotRows_ids (sizes : paths.length = metadata.length) :
    (snapshotRows paths metadata).map DocPaths.RawRow.id = List.range paths.length := by
  have ids : (snapshotRows paths metadata).map DocPaths.RawRow.id = (paths.zip metadata).zipIdx.map Prod.snd := by
    rw [snapshotRows, List.map_map]
    rfl
  rw [ids, List.zipIdx_map_snd, List.length_zip, ← sizes, Nat.min_self, List.range_eq_range']

theorem snapshotRows_paths (sizes : paths.length = metadata.length) :
    (snapshotRows paths metadata).map DocPaths.RawRow.path = paths := by
  have mapped : (snapshotRows paths metadata).map DocPaths.RawRow.path =
      ((paths.zip metadata).zipIdx.map Prod.fst).map Prod.fst := by
    rw [snapshotRows, List.map_map, List.map_map]
    rfl
  rw [mapped, List.zipIdx_map_fst, List.map_fst_zip (Nat.le_of_eq sizes)]

theorem distinct_snapshotRows_iff (sizes : paths.length = metadata.length) :
    DocPaths.DistinctRows (snapshotRows paths metadata) ↔ paths.Nodup := by
  rw [DocPaths.DistinctRows, snapshotRows_ids sizes, snapshotRows_paths sizes]
  exact and_iff_right List.nodup_range

theorem snapshotRow_of_path {row other : DocPaths.RawRow} (distinct : DocPaths.DistinctRows (snapshotRows paths metadata))
    (member : row ∈ snapshotRows paths metadata) (otherMember : other ∈ snapshotRows paths metadata)
    (same : row.path = other.path) : row = other :=
  List.inj_on_of_nodup_map distinct.2 member otherMember same

theorem maxId_snapshotRows (sizes : paths.length = metadata.length) (some : paths ≠ []) :
    DocPaths.maxId (snapshotRows paths metadata) + 1 = paths.length := by
  have ids := snapshotRows_ids sizes
  have positive : 0 < paths.length := List.length_pos_of_ne_nil some
  have below : ∀ row ∈ snapshotRows paths metadata, row.id < paths.length := by
    intro row member
    have listed : row.id ∈ (snapshotRows paths metadata).map DocPaths.RawRow.id := List.mem_map_of_mem member
    rw [ids] at listed
    exact List.mem_range.mp listed
  have last : paths.length - 1 ∈ (snapshotRows paths metadata).map DocPaths.RawRow.id := by
    rw [ids]
    exact List.mem_range.mpr (by omega)
  obtain ⟨row, member, same⟩ := List.mem_map.mp last
  have reached := Nat.succ_le_succ (DocPaths.le_maxId member)
  rw [same, Nat.succ_eq_add_one, Nat.sub_add_cancel positive] at reached
  exact Nat.le_antisymm (Nat.succ_le_of_lt (DocPaths.maxId_lt positive below)) reached

/-- A catalog in memory that got distinct paths counts them. -/
theorem staged_counters (sizes : paths.length = metadata.length) (distinct : paths.Nodup) :
    (DocPaths.rebuildFromRawRows (snapshotRows paths metadata)).path2info.entries.length = paths.length ∧
      (DocPaths.rebuildFromRawRows (snapshotRows paths metadata)).id2path.length = paths.length := by
  have rows := (distinct_snapshotRows_iff sizes).mpr distinct
  constructor
  · have keys : (DocPaths.rebuildFromRawRows (snapshotRows paths metadata)).path2info.keys.Perm paths := by
      rw [List.perm_ext_iff_of_nodup (SortedMap.keys_nodup _) distinct]
      intro path
      have listed : path ∈ paths ↔ ∃ row ∈ snapshotRows paths metadata, row.path = path := by
        conv_lhs => rw [← snapshotRows_paths sizes]
        exact List.mem_map
      rw [SortedMap.mem_keys_iff, listed]
      constructor
      · rintro ⟨info, found⟩
        obtain ⟨row, member, same, _⟩ := DocPaths.row_of_find? found
        exact ⟨row, member, same⟩
      · rintro ⟨row, member, same⟩
        exact ⟨row.info, (DocPaths.find?_rebuildFromRawRows rows).mpr ⟨row, member, same, rfl⟩⟩
    have length := keys.length_eq
    rwa [SortedMap.keys, List.length_map] at length
  · cases paths with
    | nil => rfl
    | cons first rest =>
        have maximum := maxId_snapshotRows sizes (List.cons_ne_nil first rest)
        cases listed : snapshotRows (first :: rest) metadata with
        | nil =>
            have ids := snapshotRows_ids sizes
            rw [listed] at ids
            simp [List.range_succ_eq_map] at ids
        | cons row others =>
            rw [listed] at maximum
            rw [DocPaths.rebuildFromRawRows, length_fillSlots, List.length_replicate, maximum]

/-- A catalog in memory that got a path twice counts less. -/
theorem nodup_of_staged_size (sizes : paths.length = metadata.length)
    (size : (DocPaths.rebuildFromRawRows (snapshotRows paths metadata)).path2info.entries.length = paths.length) :
    paths.Nodup := by
  have keys : (DocPaths.rebuildFromRawRows (snapshotRows paths metadata)).path2info.keys.Nodup :=
    SortedMap.keys_nodup _
  have inside : (DocPaths.rebuildFromRawRows (snapshotRows paths metadata)).path2info.keys ⊆ paths := by
    intro path member
    obtain ⟨info, found⟩ := SortedMap.mem_keys_iff.mp member
    obtain ⟨row, listed, rfl, _⟩ := DocPaths.row_of_find? found
    have among : row.path ∈ (snapshotRows paths metadata).map DocPaths.RawRow.path := List.mem_map_of_mem listed
    rwa [snapshotRows_paths sizes] at among
  have length : paths.length ≤ (DocPaths.rebuildFromRawRows (snapshotRows paths metadata)).path2info.keys.length := by
    rw [SortedMap.keys, List.length_map, size]
  exact ((List.subperm_of_subset keys inside).perm_of_length_le length).nodup_iff.mp keys

/-- The rows a staged catalog in memory reports are those of the snapshot. -/
theorem mem_exportRows_staged (rows : DocPaths.DistinctRows (snapshotRows paths metadata)) {row : DocPaths.RawRow} :
    row ∈ (DocPaths.rebuildFromRawRows (snapshotRows paths metadata)).exportRows ↔
      row ∈ snapshotRows paths metadata := by
  rw [DocPaths.exportRows, List.mem_map]
  constructor
  · rintro ⟨⟨path, info⟩, member, rfl⟩
    obtain ⟨row, listed, rfl, rfl⟩ := (DocPaths.find?_rebuildFromRawRows rows).mp (SortedMap.mem_entries_iff.mp member)
    exact listed
  · intro listed
    have found := (DocPaths.find?_rebuildFromRawRows rows).mpr ⟨row, listed, rfl, rfl⟩
    exact ⟨(row.path, row.info), SortedMap.mem_entries_iff.mpr found, rfl⟩

/-- Looking up a path among the written rows. -/
theorem findByPath_saved {db : Database} (rows : DocPaths.DistinctRows (snapshotRows paths metadata))
    (stored : ∀ id stored, db.docs.find? id = some stored ↔
      ∃ row ∈ snapshotRows paths metadata, row.id = id ∧ row.docRow = stored) {path : Path} {record : DocumentRecord} :
    db.findByPath path = some record ↔
      ∃ row ∈ snapshotRows paths metadata, row.record = record ∧ row.path = path := by
  have listed (record : DocumentRecord) (found : db.findByPath path = some record) :
      ∃ row ∈ snapshotRows paths metadata, row.record = record ∧ row.path = path := by
    obtain ⟨present, same⟩ := Database.findByPath_spec found
    obtain ⟨row, member, id, fields⟩ := (stored _ _).mp present
    obtain ⟨id', path', ⟨ticks, size⟩, deleted⟩ := record
    obtain ⟨rowId, rowPath, rowTicks, rowSize, rowDeleted⟩ := row
    simp only [DocPaths.RawRow.docRow, DocRow.mk.injEq] at fields
    obtain ⟨rfl, rfl, rfl, rfl⟩ := fields
    exact ⟨_, member, by simp_all [DocPaths.RawRow.record], rfl⟩
  constructor
  · exact listed record
  · rintro ⟨row, member, rfl, rfl⟩
    have present := (stored row.id row.docRow).mpr ⟨row, member, rfl, rfl⟩
    obtain ⟨record, found⟩ := Option.isSome_iff_exists.mp (Database.isSome_findByPath present)
    obtain ⟨other, otherMember, rfl, same⟩ := listed record found
    rw [snapshotRow_of_path rows otherMember member same] at found
    exact found

end Rows

/-! ## One installation -/

section Install

variable {faults : InstallFaults} {s : IndexStore} {snapshot : BatchSnapshot} {paths : List Path}

@[simp] theorem activePosting_installed (wordId : WordId) :
    snapshot.installed.activePosting wordId = snapshot.postings.getD wordId ∅ := by
  unfold InvertedIndex.activePosting BatchSnapshot.installed
  cases snapshot.postings <;> rfl

/-- The snapshot stands in the database once its rows are written. -/
theorem describes_saved {catalog : DocumentCatalog} {rows : List DocPaths.RawRow}
    (distinct : DocPaths.DistinctRows rows)
    (same : ∀ row, row ∈ rows ↔ row ∈ snapshotRows paths snapshot.documentMetadata)
    (records : ∀ db : Database, (∀ id stored, db.docs.find? id = some stored ↔
        ∃ row ∈ snapshotRows paths snapshot.documentMetadata, row.id = id ∧ row.docRow = stored) →
      ∀ path record, catalog.findByPath db path = some record ↔
        ∃ row ∈ snapshotRows paths snapshot.documentMetadata, row.record = record ∧ row.path = path)
    (size : catalog.size = paths.length) (nextId : catalog.nextId = paths.length) :
    (⟨snapshot.installed, catalog, Database.savedTables snapshot.installed rows, []⟩ : IndexStore).Describes
      snapshot paths := by
  have stored : ∀ id stored, (Database.savedTables snapshot.installed rows).docs.find? id = some stored ↔
      ∃ row ∈ snapshotRows paths snapshot.documentMetadata, row.id = id ∧ row.docRow = stored := by
    intro id stored
    rw [Database.docs_savedTables distinct]
    simp only [same]
  exact {
    words := rfl
    postings := activePosting_installed
    references := rfl
    records := records _ stored
    size := size
    nextId := nextId
    storedWords := Database.words_savedTables
    storedDocs := stored
    storedPostings := fun wordId fileId => by rw [Database.posting_savedTables, activePosting_installed] }

/-- What a save that returned leaves of a snapshot that fits. -/
theorem describes_of_save (sizes : paths.length = snapshot.documentMetadata.length) {staged : StagedCatalog}
    (stages : s.catalog.stageBatchSnapshot paths snapshot.documentMetadata = some staged)
    {rows : DocPaths.DistinctRows staged.visitRows} (accepted : s.db.SchemaAccepted)
    (drained : ∃ order, (s.db.writeBatch order s.queue).isSome) (fits : s.Replaceable snapshot paths) :
    (⟨snapshot.installed, staged.commitStagedBatch, Database.savedTables snapshot.installed staged.visitRows, []⟩ :
      IndexStore).Describes snapshot paths := by
  have fits := fits accepted drained
  unfold DocumentCatalog.stageBatchSnapshot at stages
  rw [if_neg (not_not.mpr sizes)] at stages
  cases kind : s.catalog with
  | memory documents =>
      rw [kind] at stages fits
      obtain rfl := Option.some.inj stages
      have listed := (distinct_snapshotRows_iff sizes).mpr fits
      obtain ⟨size, nextId⟩ := staged_counters sizes fits
      refine describes_saved rows (fun row => mem_exportRows_staged listed) ?_ size nextId
      intro db _ path record
      rw [StagedCatalog.commitStagedBatch, DocumentCatalog.findByPath, DocPaths.findByPath, Option.map_eq_some_iff]
      simp only [DocPaths.find?_rebuildFromRawRows listed]
      constructor
      · rintro ⟨_, ⟨row, member, rfl, rfl⟩, rfl⟩
        exact ⟨row, member, rfl, rfl⟩
      · rintro ⟨row, member, rfl, rfl⟩
        exact ⟨row.info, ⟨row, member, rfl, rfl⟩, rfl⟩
  | sqlite state =>
      rw [kind] at stages fits
      obtain rfl := Option.some.inj stages
      have distinct := (distinct_snapshotRows_iff sizes).mp rows
      refine describes_saved rows (fun row => Iff.rfl) ?_ rfl rfl
      intro db stored path record
      have committed := @findByPath_saved _ _ db rows stored path
      rw [StagedCatalog.commitStagedBatch, DocumentCatalog.findByPath]
      cases pending : state.pending.find? path with
      | none => exact committed
      | some early =>
          obtain ⟨row, member, rfl, samePath⟩ := fits distinct path early pending
          rw [Option.some_or, Option.some.injEq]
          constructor
          · rintro rfl
            exact ⟨row, member, rfl, samePath⟩
          · rintro ⟨other, otherMember, rfl, otherPath⟩
            rw [snapshotRow_of_path rows member otherMember (samePath.trans otherPath.symm)]

theorem stage_eq_none_iff :
    s.catalog.stageBatchSnapshot paths snapshot.documentMetadata = none ↔
      paths.length ≠ snapshot.documentMetadata.length := by
  unfold DocumentCatalog.stageBatchSnapshot
  split
  · rename_i differ
    exact iff_of_true rfl differ
  · rename_i sizes
    cases s.catalog <;> simpa using not_not.mp sizes

/-- The catalog that was staged comes back. -/
theorem rollback_staged {staged : StagedCatalog}
    (stages : s.catalog.stageBatchSnapshot paths snapshot.documentMetadata = some staged) :
    staged.rollbackStagedBatch = match s.catalog with
      | .memory documents => .memory documents.copied
      | .sqlite state => .sqlite state := by
  unfold DocumentCatalog.stageBatchSnapshot at stages
  split at stages
  · cases stages
  · cases kind : s.catalog with
    | memory documents =>
        rw [kind] at stages
        obtain rfl := Option.some.inj stages
        exact congrArg DocumentCatalog.memory (DocPaths.copied_copied documents)
    | sqlite state =>
        rw [kind] at stages
        obtain rfl := Option.some.inj stages
        rfl

/-- How an installation ends once the documents are staged. -/
theorem installBatchSnapshot_of_stage {staged : StagedCatalog}
    (stages : s.catalog.stageBatchSnapshot paths snapshot.documentMetadata = some staged) :
    installBatchSnapshot faults s snapshot paths =
      match saveFullSnapshot faults s.db s.queue snapshot.installed staged.visitRows with
      | (db, false) => (⟨s.index, staged.rollbackStagedBatch, db, []⟩, .failedSave)
      | (db, true) => (⟨snapshot.installed, staged.commitStagedBatch, db, []⟩,
          if faults.checkpoint then .failedCheckpoint else .returned) := by
  rw [installBatchSnapshot, stages]

/-- A save that throws leaves the database with the queued writes at most; one that returns
has written the tables. -/
theorem saveFullSnapshot_cases (db : Database) (queue : List LiveMirrorOp) (index : InvertedIndex)
    (rows : List DocPaths.RawRow) :
    (saveFullSnapshot faults db queue index rows = (db, false)) ∨
      ∃ flushed, db.writeBatch faults.order queue = some flushed ∧
        (saveFullSnapshot faults db queue index rows = (flushed, false) ∨
          flushed.SchemaAccepted ∧ DocPaths.DistinctRows rows ∧
            saveFullSnapshot faults db queue index rows = (Database.savedTables index rows, true)) := by
  unfold saveFullSnapshot flushQueue
  cases faults.ensureSerializer with
  | true => exact .inl rfl
  | false =>
      cases faults.flush with
      | true => exact .inl rfl
      | false =>
          simp only [Bool.false_eq_true, if_false]
          cases written : db.writeBatch faults.order queue with
          | none => exact .inl rfl
          | some flushed =>
              refine .inr ⟨flushed, rfl, ?_⟩
              cases done : flushed.save faults.save index rows with
              | none => exact .inl (by simp only [done])
              | some saved =>
                  obtain ⟨distinct, rfl⟩ := Database.save_eq_some done
                  simp only [done]
                  exact .inr ⟨Database.accepted_of_save done, distinct, trivial⟩

theorem installExact_of_fits (undoable : s.Undoable) (fits : s.Replaceable snapshot paths)
    (sizes : paths.length = snapshot.documentMetadata.length) : InstallExact faults s snapshot paths := by
  obtain ⟨staged, stages⟩ := Option.ne_none_iff_exists'.mp fun none => stage_eq_none_iff.mp none sizes
  have restored : staged.rollbackStagedBatch = s.catalog := by
    rw [rollback_staged stages]
    cases kind : s.catalog with
    | memory documents => exact congrArg DocumentCatalog.memory (undoable.numbered documents kind)
    | sqlite state => rfl
  unfold InstallExact
  rw [installBatchSnapshot_of_stage stages]
  rcases @saveFullSnapshot_cases faults s.db s.queue snapshot.installed staged.visitRows with
    thrown | ⟨flushed, written, thrown | ⟨accepted, distinct, saved⟩⟩
  · rw [thrown]
    exact ⟨fun returned => (by cases returned), fun _ => ⟨rfl, restored, rfl⟩⟩
  · rw [thrown]
    exact ⟨fun returned => (by cases returned), fun _ => ⟨rfl, restored, undoable.flushed _ _ written⟩⟩
  · rw [saved]
    obtain rfl := undoable.flushed _ _ written
    refine ⟨fun _ => @describes_of_save _ _ _ sizes _ stages distinct accepted ⟨_, by rw [written]; rfl⟩ fits, ?_⟩
    rintro (refused | failed)
    · cases checkpoint : faults.checkpoint <;> simp [checkpoint] at refused
    · cases checkpoint : faults.checkpoint <;> simp [checkpoint] at failed

/-- Rows that are distinct are saved when nothing fails. -/
theorem installBatchSnapshot_none {staged : StagedCatalog} {order : IterationOrder}
    (stages : s.catalog.stageBatchSnapshot paths snapshot.documentMetadata = some staged)
    (written : s.db.writeBatch order s.queue = some s.db) (accepted : s.db.SchemaAccepted)
    (distinct : DocPaths.DistinctRows staged.visitRows) :
    installBatchSnapshot ⟨false, false, order, fun _ => false, false⟩ s snapshot paths =
      (⟨snapshot.installed, staged.commitStagedBatch,
        Database.savedTables snapshot.installed staged.visitRows, []⟩, .returned) := by
  have saved : saveFullSnapshot ⟨false, false, order, fun _ => false, false⟩ s.db s.queue snapshot.installed
      staged.visitRows = (Database.savedTables snapshot.installed staged.visitRows, true) := by
    have flushed : flushQueue ⟨false, false, order, fun _ => false, false⟩ s.db s.queue = some s.db := written
    have done : s.db.save (fun _ => false) snapshot.installed staged.visitRows =
        some (Database.savedTables snapshot.installed staged.visitRows) := Database.save_of_not_fails accepted distinct
    simp [saveFullSnapshot, flushed, done]
  rw [installBatchSnapshot_of_stage stages, saved]
  rfl

/-- An installation that is always exact can be undone. -/
theorem undoable_of_exact (sizes : paths.length = snapshot.documentMetadata.length)
    (always : ∀ faults, InstallExact faults s snapshot paths) : s.Undoable := by
  obtain ⟨staged, stages⟩ := Option.ne_none_iff_exists'.mp fun none => stage_eq_none_iff.mp none sizes
  constructor
  · -- `BEGIN IMMEDIATE` fails after the queue was written
    intro order db written
    have thrown : (installBatchSnapshot ⟨false, false, order, fun _ => true, false⟩ s snapshot paths) =
        (⟨s.index, staged.rollbackStagedBatch, db, []⟩, .failedSave) := by
      have flushed : flushQueue ⟨false, false, order, fun _ => true, false⟩ s.db s.queue = some db := written
      rw [installBatchSnapshot_of_stage stages]
      simp [saveFullSnapshot, flushed, Database.save]
    have exact_ := (always ⟨false, false, order, fun _ => true, false⟩).2
    rw [thrown] at exact_
    exact (exact_ (.inr rfl)).2.2
  · intro documents kind
    have thrown : (installBatchSnapshot ⟨true, false, .increasing, fun _ => true, false⟩ s snapshot paths) =
        (⟨s.index, staged.rollbackStagedBatch, s.db, []⟩, .failedSave) := by
      rw [installBatchSnapshot_of_stage stages]
      simp [saveFullSnapshot]
    have exact_ := (always ⟨true, false, .increasing, fun _ => true, false⟩).2
    rw [thrown] at exact_
    have restored := (exact_ (.inr rfl)).2.1
    rw [show (⟨s.index, staged.rollbackStagedBatch, s.db, []⟩ : IndexStore).catalog =
      staged.rollbackStagedBatch from rfl, rollback_staged stages, kind] at restored
    exact DocumentCatalog.memory.inj restored

/-- An installation that is always exact replaces everything. -/
theorem replaceable_of_exact (sizes : paths.length = snapshot.documentMetadata.length)
    (always : ∀ faults, InstallExact faults s snapshot paths) : s.Replaceable snapshot paths := by
  rintro accepted ⟨order, some⟩
  obtain ⟨db, written⟩ := Option.isSome_iff_exists.mp some
  obtain rfl := (undoable_of_exact sizes always).flushed order db written
  have describes {staged : StagedCatalog}
      (stages : s.catalog.stageBatchSnapshot paths snapshot.documentMetadata = Option.some staged)
      (distinct : DocPaths.DistinctRows staged.visitRows) :
      (⟨snapshot.installed, staged.commitStagedBatch,
        Database.savedTables snapshot.installed staged.visitRows, []⟩ : IndexStore).Describes snapshot paths := by
    have done := installBatchSnapshot_none stages written accepted distinct
    have exact_ := (always ⟨false, false, order, fun _ => false, false⟩).1
    rw [done] at exact_
    exact exact_ rfl
  cases kind : s.catalog with
  | memory documents =>
      have stages : s.catalog.stageBatchSnapshot paths snapshot.documentMetadata = Option.some
          (.memory (DocPaths.rebuildFromRawRows (snapshotRows paths snapshot.documentMetadata)) documents.copied) := by
        rw [kind, DocumentCatalog.stageBatchSnapshot, if_neg (not_not.mpr sizes)]
      have ids : ((snapshotRows paths snapshot.documentMetadata).map DocPaths.RawRow.id).Nodup :=
        snapshotRows_ids sizes ▸ List.nodup_range
      exact nodup_of_staged_size sizes (describes stages (DocPaths.distinct_exportRows_rebuilt ids)).size
  | sqlite state =>
      intro distinct path record pending
      have stages : s.catalog.stageBatchSnapshot paths snapshot.documentMetadata = Option.some
          (.sqlite { state with documentCount := paths.length, nextId := paths.length } paths
            snapshot.documentMetadata state.documentCount state.nextId) := by
        rw [kind, DocumentCatalog.stageBatchSnapshot, if_neg (not_not.mpr sizes)]
      have rows := (distinct_snapshotRows_iff sizes).mpr distinct
      refine ((describes stages rows).records path record).mp ?_
      rw [StagedCatalog.commitStagedBatch, DocumentCatalog.findByPath, pending, Option.some_or]

/-- Whatever fails, an installation leaves the snapshot or nothing of it, exactly when it
can be undone and the snapshot can replace what there is. -/
theorem installExact_iff (s : IndexStore) (snapshot : BatchSnapshot) (paths : List Path) :
    (∀ faults, InstallExact faults s snapshot paths) ↔
      (paths.length = snapshot.documentMetadata.length → s.Undoable ∧ s.Replaceable snapshot paths) := by
  constructor
  · intro always sizes
    exact ⟨undoable_of_exact sizes always, replaceable_of_exact sizes always⟩
  · intro fits faults
    by_cases sizes : paths.length = snapshot.documentMetadata.length
    · obtain ⟨undoable, replaceable⟩ := fits sizes
      exact installExact_of_fits undoable replaceable sizes
    · have refused : installBatchSnapshot faults s snapshot paths = (s, .refused) := by
        rw [installBatchSnapshot, stage_eq_none_iff.mpr sizes]
      unfold InstallExact
      rw [refused]
      exact ⟨fun returned => (by cases returned), fun _ => ⟨rfl, rfl, rfl⟩⟩

end Install

/-! ## A path listed twice -/

/-- An index without anything, with its catalog in memory. -/
def emptyStore : IndexStore := ⟨.empty, .memory .empty, .empty, []⟩

/-- A snapshot of the same file, listed twice. -/
def listedTwice : BatchSnapshot where
  documentMetadata := [⟨1, 1⟩, ⟨1, 1⟩]
  wordIds := WordIdManager.ofList [Word.ofAscii "ALPHA"]
  postings := [SortedMap.ofList [(0, 1), (1, 1)]]
  wordRefs := SortedMap.ofList [(0, [0]), (1, [0])]

/-- The call returns, and the document 1 of the postings has no row. -/
theorem not_installExact_listedTwice :
    ¬ ∀ faults, InstallExact faults emptyStore listedTwice ["a".toList, "a".toList] := by
  intro always
  have returned : (installBatchSnapshot InstallFaults.none emptyStore listedTwice ["a".toList, "a".toList]).2 =
      .returned := by decide +kernel
  have size : (installBatchSnapshot InstallFaults.none emptyStore listedTwice
      ["a".toList, "a".toList]).1.catalog.size = 1 := by decide +kernel
  have described := ((always InstallFaults.none).1 returned).size
  rw [size] at described
  exact absurd described (by decide)

end SearchEngine.Index
