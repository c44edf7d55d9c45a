import SearchEngine.Index.PartialScan
import SearchEngine.Index.PointUpdates

/-!
# What single point updates leave in the catalog

An event that the index works off before the next one leaves the path with the
metadata of the file, or without an active document, and every other path as it was.
A scan of a catalog that knows the listed files with their metadata, and no others,
reports nothing.
-/

namespace SearchEngine.Index

open SearchEngine.Lib

/-! ## Working off an event -/

namespace System

/-- The strand runs what was posted, if anything was. -/
def drainStrand (s : System) (order : IterationOrder) : Option System :=
  if s.strand.isEmpty then some s else s.runStrand order

/-- An idle index runs what an event posted, and what that posts, to the end. -/
def workOff (oem : OemTable) (s : System) (order : IterationOrder) (content : Option (List Byte)) :
    Option System :=
  (s.drainStrand order).bind fun posted =>
    if posted.indexing.isEmpty then some posted
    else
      (posted.runIndexing oem 0 content (batchList oem (content.getD []))).bind fun read =>
        (read.drainStrand order).bind fun batched =>
          if batched.commits.isEmpty then some batched else batched.runCommit 0

/-- `enqueueFileUpdate` and everything it leads to. -/
def updateNow (oem : OemTable) (s : System) (order : IterationOrder) (path : Path)
    (found : Option (DocumentMetadata × Option (List Byte))) : Option System :=
  (s.enqueueFileUpdate path (found.map Prod.fst)).bind fun posted =>
    posted.workOff oem order (found.bind Prod.snd)

/-- `enqueueFileDeletion` and everything it leads to. -/
def deleteNow (oem : OemTable) (s : System) (order : IterationOrder) (path : Path) : Option System :=
  (s.enqueueFileDeletion path).bind fun posted => posted.workOff oem order none

end System

/-! ## Active documents -/

namespace DocumentCatalog

/-- The metadata of the active document of a path. -/
def active (catalog : DocumentCatalog) (db : Database) (path : Path) : Option DocumentMetadata :=
  (catalog.findByPath db path).bind fun record =>
    if record.deleted then none else some record.metadata

/-- The rows decide what a scan finds. -/
def readsRows : DocumentCatalog → Bool
  | memory _ => false
  | sqlite _ => true

variable {catalog : DocumentCatalog} {db after : Database}

theorem active_congr {next : DocumentCatalog} {path : Path}
    (same : next.findByPath after path = catalog.findByPath db path) :
    next.active after path = catalog.active db path := by
  rw [active, same, active]

theorem persisted_notePersisted {path : Path} {record : DocumentRecord}
    (found : catalog.findByPath db path = some record)
    (others : ∀ other, other ≠ path → catalog.Persisted other) (other : Path) :
    (catalog.notePersisted path record.id).Persisted other := by
  cases catalog with
  | memory paths => trivial
  | sqlite state =>
      change (state.notePersisted path record.id).pending.find? other = none
      unfold SQLiteCatalog.notePersisted
      cases waiting : state.pending.find? path with
      | none =>
          by_cases same : other = path
          · rw [same]
            exact waiting
          · exact others other same
      | some pending =>
          have first : (state.pending.find? path).or (db.findByPath path) = some record := found
          rw [waiting, Option.some_or] at first
          obtain rfl := Option.some.inj first
          dsimp only
          rw [if_pos rfl, SortedMap.find?_erase]
          split
          · rfl
          · rename_i different
            exact others other (Ne.symm different)

/-- An update leaves no other path waiting. -/
theorem persisted_upsert (persisted : ∀ path, catalog.Persisted path) (path : Path)
    (metadata : DocumentMetadata) {other : Path} (different : other ≠ path) :
    (catalog.upsert db path metadata).1.Persisted other := by
  cases catalog with
  | memory paths => trivial
  | sqlite state =>
      have waiting : ∀ path, state.pending.find? path = none := persisted
      change (state.upsert db path metadata).1.pending.find? other = none
      simp only [SQLiteCatalog.upsert, waiting]
      cases db.findByPath path with
      | none => simp [waiting, Ne.symm different]
      | some record =>
          dsimp only
          split
          · simp [waiting, Ne.symm different]
          · exact waiting other

/-- An update that changes nothing leaves the catalog alone. -/
theorem upsert_of_unchanged (persisted : ∀ path, catalog.Persisted path) {path : Path}
    {metadata : DocumentMetadata} (unchanged : (catalog.upsert db path metadata).2.2 = false) :
    (catalog.upsert db path metadata).1 = catalog := by
  cases catalog with
  | memory paths =>
      unfold upsert DocPaths.upsert at unchanged ⊢
      cases found : paths.path2info.find? path with
      | none => simp [found] at unchanged
      | some info =>
          simp only [found] at unchanged ⊢
          split at unchanged
          · cases unchanged
          · rename_i same
            rw [if_neg same]
  | sqlite state =>
      have waiting : state.pending.find? path = none := persisted path
      unfold upsert SQLiteCatalog.upsert at unchanged ⊢
      cases found : db.findByPath path with
      | none => simp [waiting, found] at unchanged
      | some record =>
          simp only [waiting, found] at unchanged ⊢
          split at unchanged
          · cases unchanged
          · rename_i same
            rw [if_neg same]

end DocumentCatalog

namespace System

variable {oem : OemTable} {s next : System} {order : IterationOrder} {path : Path}

/-- Nothing is under way and every update is recorded. -/
structure AtRest (s : System) : Prop where
  idle : s.Idle
  free : s.updating = false
  written : s.queue = []
  paths : s.catalog.PathsAgree s.db
  persisted : ∀ path, s.catalog.Persisted path

/-- The step changes the active document of one path. -/
structure Sets (s next : System) (path : Path) (metadata : Option DocumentMetadata) : Prop where
  rest : next.AtRest
  own : next.catalog.active next.db path = metadata
  others : ∀ other, other ≠ path → next.catalog.active next.db other = s.catalog.active s.db other
  storage : next.catalog.readsRows = s.catalog.readsRows

/-- A path that is no regular file is skipped. -/
theorem AtRest.updateNow_none (rest : s.AtRest)
    (done : s.updateNow oem order path none = some next) :
    s.Sets next path (s.catalog.active s.db path) := by
  simp only [updateNow, enqueueFileUpdate, rest.free, Option.map_none, Bool.false_eq_true, if_false,
    Option.bind_some, workOff, drainStrand, rest.idle.1, rest.idle.2.1, List.isEmpty_nil, if_true] at done
  obtain rfl := Option.some.inj done
  exact ⟨⟨⟨rfl, rfl, rest.idle.2.2⟩, rfl, rest.written, rest.paths, rest.persisted⟩, rfl, fun _ _ => rfl, rfl⟩

end System

/-- The active documents after an update of a path. -/
theorem DocumentCatalog.active_upsert (catalog : DocumentCatalog) (db : Database) (path : Path)
    (metadata : DocumentMetadata) :
    (catalog.upsert db path metadata).1.active db path = some metadata ∧
      ∀ other, other ≠ path →
        (catalog.upsert db path metadata).1.active db other = catalog.active db other := by
  obtain ⟨record, found, -, active, -, -, others⟩ := findByPath_upsert catalog db path metadata
  refine ⟨?_, fun other different => active_congr (others other different)⟩
  rw [DocumentCatalog.active, found, Option.bind_some, active, metadata_upsert catalog db path metadata found]
  rfl

theorem DocumentCatalog.readsRows_upsert (catalog : DocumentCatalog) (db : Database) (path : Path)
    (metadata : DocumentMetadata) :
    (catalog.upsert db path metadata).1.readsRows = catalog.readsRows := by
  cases catalog <;> rfl

theorem DocumentCatalog.readsRows_notePersisted (catalog : DocumentCatalog) (path : Path) (id : FileId) :
    (catalog.notePersisted path id).readsRows = catalog.readsRows := by
  cases catalog <;> rfl

namespace System

variable {oem : OemTable} {s next : System} {order : IterationOrder} {path : Path}

/-- The index while it works off the update of a path. -/
def during (s : System) (path : Path) (metadata : DocumentMetadata) : System :=
  { s with
    catalog := (s.catalog.upsert s.db path metadata).1
    nextTicket := s.nextTicket + 1 }

/-- What is left of an update after its task on the strand. -/
theorem AtRest.updateNow_eq (rest : s.AtRest) {metadata : DocumentMetadata}
    {content : Option (List Byte)}
    (done : s.updateNow oem order path (some (metadata, content)) = some next) :
    ∃ index, let upserted := s.catalog.upsert s.db path metadata
      let task : IndexingTask := ⟨some s.nextTicket, upserted.2.1, path, metadata, true⟩
      let posted : System := { s.during path metadata with index := index }
      (upserted.2.2 = false ∧ next = posted) ∨
        (upserted.2.2 = true ∧ ∃ read, ({ posted with indexing := [task] } : System).runIndexing oem 0
            content (batchList oem (content.getD [])) = some read ∧
          (read.drainStrand order).bind (fun batched =>
            if batched.commits.isEmpty then some batched else batched.runCommit 0) = some next) := by
  obtain ⟨catalog, index, db, queue, strand, indexing, commits, updating, nextTicket⟩ := s
  obtain ⟨rfl, rfl, rfl⟩ := rest.idle
  obtain rfl : updating = false := rest.free
  simp only [updateNow, enqueueFileUpdate, Option.map_some, Bool.false_eq_true, if_false,
    Option.bind_some, workOff, drainStrand, List.nil_append, List.isEmpty_cons, runStrand, runUpsert] at done
  by_cases changed : (catalog.upsert db path metadata).2.2 = true
  · simp only [changed, if_true, List.isEmpty_cons, Bool.false_eq_true, if_false] at done
    obtain ⟨read, reads, rest⟩ := Option.bind_eq_some_iff.mp done
    exact ⟨_, .inr ⟨changed, read, reads, rest⟩⟩
  · rw [Bool.not_eq_true] at changed
    simp only [changed, Bool.false_eq_true, if_false, List.isEmpty_nil, if_true] at done
    exact ⟨_, .inl ⟨changed, (Option.some.inj done).symm⟩⟩

/-- An update that leaves only the record in the catalog, as one kept in memory may. -/
theorem AtRest.sets_during (rest : s.AtRest) {metadata : DocumentMetadata} (index : InvertedIndex)
    (inMemory : s.catalog.readsRows = false ∨ (s.catalog.upsert s.db path metadata).2.2 = false) :
    s.Sets { s.during path metadata with index := index } path (some metadata) := by
  obtain ⟨own, others⟩ := s.catalog.active_upsert s.db path metadata
  obtain ⟨agree, -⟩ := rest.paths.upsert path metadata
  refine ⟨⟨rest.idle, rest.free, rest.written, agree, ?_⟩, own, others, s.catalog.readsRows_upsert _ _ _⟩
  intro other
  rcases inMemory with memory | unchanged
  · have kept : (s.catalog.upsert s.db path metadata).1.readsRows = false := by
      rw [s.catalog.readsRows_upsert]
      exact memory
    change (s.catalog.upsert s.db path metadata).1.Persisted other
    cases upserted : (s.catalog.upsert s.db path metadata).1 with
    | memory paths => trivial
    | sqlite state =>
        rw [upserted] at kept
        cases kept
  · change (s.catalog.upsert s.db path metadata).1.Persisted other
    rw [DocumentCatalog.upsert_of_unchanged rest.persisted unchanged]
    exact rest.persisted other

/-- An update whose batch has words writes its row. -/
theorem AtRest.sets_batch (rest : s.AtRest) {metadata : DocumentMetadata} {index : InvertedIndex}
    {list : List (Word × UInt32)} (filled : list ≠ [])
    (done : ({ s.during path metadata with index := index } : System).runProcessBatch order
      ⟨some s.nextTicket, (s.catalog.upsert s.db path metadata).2.1, path, metadata, true, list⟩ =
        some next) {commits : List DictionaryChunks.ChunkMap} {last : InvertedIndex}
    (noCommits : commits = []) :
    s.Sets { next with index := last, commits := commits } path (some metadata) := by
  obtain ⟨own, others⟩ := s.catalog.active_upsert s.db path metadata
  obtain ⟨agree, -⟩ := rest.paths.upsert path metadata
  obtain ⟨record, found, number, active, -⟩ := s.catalog.findByPath_upsert s.db path metadata
  rw [runProcessBatch_eq _ _ _ filled, if_pos rfl] at done
  obtain ⟨flushed, flush, rfl⟩ := Option.map_eq_some_iff.mp done
  obtain ⟨after, written, rfl⟩ := flushPending_eq flush
  simp only [System.staged, during, rest.written, List.nil_append, batchWrite] at written
  have docs := Database.docs_writeBatch_write written
  simp only [← number] at docs
  have unique := rest.paths.unique.writeBatch written
  obtain ⟨kept, -⟩ := agree.persist found active unique rfl rfl docs
  obtain ⟨⟨stored, storedFound, -, storedActive, -, same⟩, otherRecords⟩ :=
    agree.findByPath_persist found active unique rfl rfl docs
  have recorded : record.metadata = metadata := s.catalog.metadata_upsert s.db path metadata found
  have persisted := DocumentCatalog.persisted_notePersisted found fun other different =>
    DocumentCatalog.persisted_upsert rest.persisted path metadata different
  subst noCommits
  refine ⟨⟨⟨rest.idle.1, rest.idle.2.1, rfl⟩, rest.free, rfl, ?_, ?_⟩, ?_, ?_, ?_⟩
  · change ((s.catalog.upsert s.db path metadata).1.notePersisted path
      (s.catalog.upsert s.db path metadata).2.1).PathsAgree after
    rw [← number]
    exact kept
  · change ∀ other, ((s.catalog.upsert s.db path metadata).1.notePersisted path
      (s.catalog.upsert s.db path metadata).2.1).Persisted
      other
    rw [← number]
    exact persisted
  · change ((s.catalog.upsert s.db path metadata).1.notePersisted path
      (s.catalog.upsert s.db path metadata).2.1).active after
      path = _
    rw [← number, DocumentCatalog.active, storedFound, Option.bind_some, storedActive, same recorded.symm,
      recorded]
    rfl
  · intro other different
    change ((s.catalog.upsert s.db path metadata).1.notePersisted path
      (s.catalog.upsert s.db path metadata).2.1).active after
      other = _
    rw [← number, ← others other different]
    exact DocumentCatalog.active_congr (otherRecords other different)
  · exact (DocumentCatalog.readsRows_notePersisted _ _ _).trans (s.catalog.readsRows_upsert _ _ _)

/-- An update that can be read, with a word in it where the rows decide, leaves the metadata. -/
theorem AtRest.updateNow_some (rest : s.AtRest) {metadata : DocumentMetadata}
    {content : Option (List Byte)}
    (readable : s.catalog.readsRows = true → ∃ bytes, content = some bytes ∧ batchList oem bytes ≠ [])
    (done : s.updateNow oem order path (some (metadata, content)) = some next) :
    s.Sets next path (some metadata) := by
  obtain ⟨index, ⟨unchanged, rfl⟩ | ⟨-, read, reads, finished⟩⟩ := rest.updateNow_eq done
  · exact rest.sets_during index (.inr unchanged)
  · obtain ⟨strand, indexing, commits⟩ := rest.idle
    -- a file without words is left to the record in the catalog
    have wordless : (∀ bytes, content = some bytes → batchList oem bytes = []) →
        s.Sets { s.during path metadata with index := index } path (some metadata) := by
      intro none
      refine rest.sets_during index (.inl ?_)
      by_contra rows
      rw [Bool.not_eq_false] at rows
      obtain ⟨bytes, same, words⟩ := readable rows
      exact words (none bytes same)
    obtain ⟨task, first, -, ⟨rfl, rfl⟩ | ⟨bytes, rfl, -, rfl⟩⟩ := runIndexing_cases reads
    · simp only [drainStrand, during, strand, List.isEmpty_nil, if_true, Option.bind_some, commits] at finished
      obtain rfl := Option.some.inj finished
      have sets := wordless (by simp)
      simp only [during, strand, indexing, commits] at sets ⊢
      exact sets
    · obtain rfl := Option.some.inj first
      simp only [drainStrand, during, strand, List.nil_append, List.isEmpty_cons, Bool.false_eq_true,
        if_false, runStrand, Option.getD_some, List.eraseIdx_cons_zero] at finished
      by_cases filled : batchList oem bytes = []
      · simp only [filled, runProcessBatch, List.isEmpty_nil, if_true, Option.bind_some, commits] at finished
        obtain rfl := Option.some.inj finished
        have sets := wordless (by rintro _ ⟨⟩; exact filled)
        simp only [during, strand, indexing, commits] at sets ⊢
        exact sets
      · obtain ⟨batched, ran, committed⟩ := Option.bind_eq_some_iff.mp finished
        have single : ∃ groups, batched.commits = [groups] := by
          rw [runProcessBatch_eq _ _ _ filled, if_pos rfl] at ran
          obtain ⟨flushed, flush, rfl⟩ := Option.map_eq_some_iff.mp ran
          obtain ⟨after, -, rfl⟩ := flushPending_eq flush
          simp only [staged, commits, List.nil_append]
          exact ⟨_, rfl⟩
        obtain ⟨groups, pending⟩ := single
        rw [pending, List.isEmpty_cons, if_neg (by simp)] at committed
        obtain ⟨taken, -, rfl⟩ := Option.map_eq_some_iff.mp committed
        have ready : ({ s.during path metadata with index := index } : System).runProcessBatch order
            ⟨some s.nextTicket, (s.catalog.upsert s.db path metadata).2.1, path, metadata, true,
              batchList oem bytes⟩ = some batched := by
          simp only [during, strand, indexing]
          exact ran
        exact rest.sets_batch filled ready (by rw [pending]; rfl)

/-! ## Deletions -/

theorem AtRest.persisted_markRemoved (rest : s.AtRest) (id : FileId) (path : Path) :
    (s.catalog.markRemoved id).Persisted path := by
  have persisted := rest.persisted path
  revert persisted
  cases s.catalog with
  | memory paths => exact fun _ => trivial
  | sqlite state => exact fun persisted => persisted

/-- A deletion of a path leaves it without an active document. -/
theorem AtRest.deleteNow (rest : s.AtRest) (done : s.deleteNow oem order path = some next) :
    s.Sets next path none := by
  obtain ⟨strand, indexing, commits⟩ := rest.idle
  unfold System.deleteNow System.enqueueFileDeletion at done
  rw [rest.free, if_neg (by simp)] at done
  cases found : s.catalog.findByPath s.db path with
  | none =>
      simp only [found, Option.bind_some, workOff, drainStrand, strand, List.isEmpty_nil, if_true,
        indexing] at done
      obtain rfl := Option.some.inj done
      refine ⟨⟨⟨strand, indexing, commits⟩, rest.free, rest.written, rest.paths, rest.persisted⟩, ?_, fun _ _ => rfl, rfl⟩
      simp [DocumentCatalog.active, found]
  | some record =>
      simp only [found, Option.bind_some, workOff, drainStrand, strand, List.nil_append, List.isEmpty_cons,
        Bool.false_eq_true, if_false, runStrand, runSoftDelete] at done
      obtain ⟨posted, ran, finished⟩ := Option.bind_eq_some_iff.mp done
      obtain ⟨flushed, flush, rfl⟩ := Option.map_eq_some_iff.mp ran
      obtain ⟨after, written, rfl⟩ := flushPending_eq flush
      simp only [indexing, List.isEmpty_nil, if_true] at finished
      obtain rfl := Option.some.inj finished
      simp only [rest.written, List.nil_append] at written
      have marked := Database.docs_writeBatch_markDeleted written
      have unique := rest.paths.unique.writeBatch written
      obtain ⟨agree, -⟩ := rest.paths.remove found (rest.persisted path) unique marked
      obtain ⟨⟨stored, storedFound, -, flagged, -⟩, others⟩ :=
        rest.paths.findByPath_remove found (rest.persisted path) unique marked
      refine ⟨⟨⟨rfl, rfl, commits⟩, rfl, rfl, agree, ?_⟩, ?_, ?_, ?_⟩
      · exact rest.persisted_markRemoved record.id
      · simp [DocumentCatalog.active, storedFound, flagged]
      · intro other different
        exact DocumentCatalog.active_congr (others other different)
      · cases s.catalog <;> rfl

end System

/-! ## Scans of a catalog that is up to date -/

/-- A visit of a file that is active with its metadata changes nothing. -/
theorem DocPaths.visitPaths_of_current {stat : Stat} {scanned : List Path} {paths : DocPaths}
    (current : ∀ path ∈ scanned, ∃ info, paths.path2info.find? path = some info ∧ info.deleted = false ∧
      stat path = some info.metadata) (pack : UpdatePack) :
    visitPaths stat scanned paths pack = (paths, some pack) := by
  induction scanned with
  | nil => rfl
  | cons path rest ih =>
      obtain ⟨info, found, active, read⟩ := current path List.mem_cons_self
      have unchanged : paths.visitPath pack path info.metadata = (paths, pack) := by
        simp [visitPath, found, active]
      unfold visitPaths
      rw [read]
      dsimp only
      rw [unchanged]
      exact ih fun other member => current other (List.mem_cons_of_mem _ member)

theorem SQLiteCatalog.scanPaths_of_current {db : Database} {stat : Stat} {listed : List (Path × Nat)}
    (current : ∀ entry ∈ listed, ∃ record, db.findByPath entry.1 = some record ∧
      record.deleted = false ∧ stat entry.1 = some record.metadata) (nextId : FileId) :
    scanPaths db stat listed nextId = some ⟨[], [], []⟩ := by
  induction listed with
  | nil => rfl
  | cons entry rest ih =>
      obtain ⟨path, index⟩ := entry
      obtain ⟨record, found, active, read⟩ := current (path, index) List.mem_cons_self
      have tail := ih fun other member => current other (List.mem_cons_of_mem _ member)
      have same : differs record record.metadata = false := by simp [differs, active]
      simp only [scanPaths, read, found, tail, same, Option.bind_eq_bind, Option.bind_some,
        Bool.false_eq_true, if_false]

/-- A scan of a catalog whose active documents are the listed files with their metadata reports
nothing. -/
theorem DocumentCatalog.scan_of_current {catalog : DocumentCatalog} {db : Database} {stat : Stat}
    {scanned : List Path} (agree : catalog.PathsAgree db) (persisted : ∀ path, catalog.Persisted path)
    (distinct : scanned.Nodup) (readable : ∀ path ∈ scanned, (stat path).isSome)
    (current : ∀ path, catalog.active db path = if path ∈ scanned then stat path else none) :
    (catalog.scan db stat scanned).2 = some ⟨[], [], []⟩ := by
  have known : ∀ path ∈ scanned, ∃ record, catalog.findByPath db path = some record ∧
      record.deleted = false ∧ stat path = some record.metadata := by
    intro path member
    obtain ⟨metadata, read⟩ := Option.isSome_iff_exists.mp (readable path member)
    have active := current path
    rw [if_pos member, read] at active
    obtain ⟨record, found, kept⟩ := Option.bind_eq_some_iff.mp active
    split at kept
    · cases kept
    · rename_i unflagged
      rw [Bool.not_eq_true] at unflagged
      exact ⟨record, found, unflagged, by rw [read, ← Option.some.inj kept]⟩
  have others : ∀ path record, catalog.findByPath db path = some record → record.deleted = false →
      path ∈ scanned := by
    intro path record found unflagged
    by_contra absent
    have active := current path
    rw [if_neg absent, DocumentCatalog.active, found, Option.bind_some, unflagged] at active
    cases active
  cases catalog with
  | memory paths =>
      have visited : DocPaths.visitPaths stat scanned paths ⟨[], [], []⟩ = (paths, some ⟨[], [], []⟩) := by
        refine DocPaths.visitPaths_of_current (fun path member => ?_) _
        obtain ⟨record, found, unflagged, read⟩ := known path member
        obtain ⟨info, stored, rfl⟩ := Option.map_eq_some_iff.mp found
        exact ⟨info, stored, unflagged, read⟩
      have seen : (paths.unseen scanned).entries = [] := by
        refine List.eq_nil_iff_forall_not_mem.mpr fun entry member => ?_
        have left := SortedMap.mem_entries_iff.mp member
        rw [DocPaths.unseen, SortedMap.find?_filter, Option.filter_eq_some_iff] at left
        simp only [Bool.and_eq_true, Bool.not_eq_true', decide_eq_true_eq] at left
        have found : (memory paths).findByPath db entry.1 =
            some ⟨entry.2.id, entry.1, entry.2.metadata, entry.2.deleted⟩ := by
          simp [findByPath, DocPaths.findByPath, left.1]
        exact left.2.2 (others entry.1 _ found left.2.1)
      simp [scan, DocPaths.scan, DocPaths.getUpdate, visited, seen, DocPaths.scanItems]
  | sqlite state =>
      have rows : ∀ path, (sqlite state).findByPath db path = db.findByPath path := by
        intro path
        have waiting : state.pending.find? path = none := persisted path
        simp [findByPath, waiting]
      have visited : SQLiteCatalog.scanPaths db stat scanned.zipIdx state.nextId = some ⟨[], [], []⟩ := by
        refine SQLiteCatalog.scanPaths_of_current (fun entry member => ?_) _
        obtain ⟨record, found, unflagged, read⟩ := known entry.1 (List.fst_mem_of_mem_zipIdx member)
        exact ⟨record, (rows entry.1) ▸ found, unflagged, read⟩
      have seen : (db.docs.entries.filter fun entry => !entry.2.deleted && decide
          (entry.1 ∉ ([] : List CatalogScanItem).map CatalogScanItem.id ++
            SQLiteCatalog.foundIds db scanned)) = [] := by
        refine List.filter_eq_nil_iff.mpr fun entry member => ?_
        have stored := SortedMap.mem_entries_iff.mp member
        have located := Database.findByPath_of_row agree.unique stored
        simp only [Bool.and_eq_true, Bool.not_eq_true', decide_eq_true_eq, not_and, not_not]
        intro unflagged
        have inList := others entry.2.path _ ((rows entry.2.path).trans located) unflagged
        exact List.mem_append_right _ (List.mem_filterMap.mpr ⟨entry.2.path, inList, by rw [located]; rfl⟩)
      simp only [scan, SQLiteCatalog.scan, if_pos distinct, visited]
      rw [seen, List.map_nil]

end SearchEngine.Index
