import SearchEngine.Index.Compact
import SearchEngine.Index.DocumentCatalog
import SearchEngine.Index.MirrorLoad
import SearchEngine.Index.Tokenizer
import SearchEngine.Index.WriteBatch
import SearchEngine.Lib.Machine

/-!
# The index as a system of executors

Point updates, full updates and compaction post tasks to two executors: the
strand runs its tasks one at a time in order, the CPU pool runs file reads and
posting commits in any order, and the writer thread takes the mirror queue at any
time. A schedule is a list of `Action`s. Point events that arrive while a full
update holds `updateMutex` are deferred by the source and appear here as later
events.
-/

namespace SearchEngine.Index

open SearchEngine.Lib

/-- A `fileIndexing` task on the CPU pool. `ticket` tags the point event that
posted it; the code does not read it. -/
structure IndexingTask where
  ticket : Option Nat
  fileId : FileId
  path : Path
  metadata : DocumentMetadata
  requireCatalogCommitBeforePublish : Bool
  deriving DecidableEq

/-- `PostingBatch`. -/
structure PostingBatch where
  ticket : Option Nat
  fileId : FileId
  path : Path
  metadata : DocumentMetadata
  requireCatalogCommitBeforePublish : Bool
  list : List (Word × UInt32)
  deriving DecidableEq

/-- A task posted to `strand_`. -/
inductive StrandTask where
  | upsert (ticket : Nat) (path : Path) (metadata : DocumentMetadata)
  | softDelete (ticket : Nat) (id : FileId) (path : Path)
  | processBatch (batch : PostingBatch)
  | compact (thresholdPercent : ℚ)
  deriving DecidableEq

/-- The index, its catalog, the database and all posted work. -/
structure System where
  catalog : DocumentCatalog
  index : InvertedIndex
  db : Database
  queue : List LiveMirrorOp
  strand : List StrandTask
  indexing : List IndexingTask
  commits : List DictionaryChunks.ChunkMap
  updating : Bool
  nextTicket : Nat

/-- One scheduling decision. An order is the iteration order of the batch map if
the action flushes the queue; a full update takes what the scanner found. -/
inductive Action where
  | enqueueFileUpdate (path : Path) (found : Option DocumentMetadata)
  | enqueueFileDeletion (path : Path)
  | compact (thresholdPercent : ℚ)
  | updateDocumentBase (paths : List Path) (stat : Stat)
  | finishUpdate (order : IterationOrder)
  | runStrand (order : IterationOrder)
  | runIndexing (position : Nat) (content : Option (List Byte)) (list : List (Word × UInt32))
  | runCommit (position : Nat)
  | writeQueue (order : IterationOrder)

namespace System

/-- `waitForIdle` returns: no tracked operation is posted or running. -/
def Idle (s : System) : Prop := s.strand = [] ∧ s.indexing = [] ∧ s.commits = []

instance (s : System) : Decidable s.Idle :=
  decidable_of_iff (s.strand = [] ∧ s.indexing = [] ∧ s.commits.isEmpty = true)
    (by rw [Idle, List.isEmpty_iff])

/-- The writer takes the whole queue, as `flushPending` waits for it to do;
`none` is a failed transaction. -/
def flushPending (s : System) (order : IterationOrder) : Option System :=
  (s.db.writeBatch order s.queue).map fun db => { s with db := db, queue := [] }

/-! ## Tasks of the strand -/

/-- The strand task of `enqueueFileUpdate`. -/
def runUpsert (s : System) (ticket : Nat) (path : Path) (metadata : DocumentMetadata) : System :=
  let upserted := s.catalog.upsert s.db path metadata
  if upserted.2.2 then
    { s with
      catalog := upserted.1
      index := if (s.index.wordRefs.find? upserted.2.1).isSome then
          s.index.safeEraseFileInternal upserted.2.1 else s.index
      indexing := s.indexing ++ [⟨some ticket, upserted.2.1, path, metadata, true⟩] }
  else { s with catalog := upserted.1 }

/-- The strand task of `enqueueFileDeletion`: the mirror, then the catalog. -/
def runSoftDelete (s : System) (order : IterationOrder) (id : FileId) : Option System :=
  (flushPending { s with queue := s.queue ++ [.markDeleted id] } order).map fun flushed =>
    { flushed with catalog := flushed.catalog.markRemoved id }

/-- The `Write` that `processBatch` queues for a batch. -/
def batchWrite (batch : PostingBatch) (pass : InvertedIndex.BatchPass) : LiveMirrorOp :=
  .write {
    fileId := batch.fileId
    path := batch.path
    mtimeTicks := batch.metadata.mtimeTicks
    size := batch.metadata.size
    widCounts := pass.widMap.entries.map fun entry => (entry.1, saturateCount entry.2.toNat)
    newWords := pass.newWords }

/-- `processBatch`. -/
def runProcessBatch (s : System) (order : IterationOrder) (batch : PostingBatch) : Option System :=
  if batch.list.isEmpty then some s
  else
    let pass := s.index.passWords batch.fileId batch.list
    let queued := { s with
      index := s.index.registerBatch batch.fileId batch.list
      queue := s.queue ++ [batchWrite batch pass] }
    let persisted := if batch.requireCatalogCommitBeforePublish then
        (queued.flushPending order).map fun flushed =>
          { flushed with catalog := flushed.catalog.notePersisted batch.path batch.fileId }
      else some queued
    persisted.map fun ready => { ready with
      commits := ready.commits ++
        [DictionaryChunks.groupByChunk (InvertedIndex.batchTasks batch.fileId pass.widMap)] }

/-- The strand task of `compact`; it is skipped while an update runs. -/
def runCompact (s : System) (thresholdPercent : ℚ) : System :=
  if s.updating then s else { s with index := s.index.compact thresholdPercent }

/-- Run the oldest task of the strand. -/
def runStrand (s : System) (order : IterationOrder) : Option System :=
  match s.strand with
  | [] => none
  | .upsert ticket path metadata :: rest => some (runUpsert { s with strand := rest } ticket path metadata)
  | .softDelete _ id _ :: rest => runSoftDelete { s with strand := rest } order id
  | .processBatch batch :: rest => runProcessBatch { s with strand := rest } order batch
  | .compact thresholdPercent :: rest => some (runCompact { s with strand := rest } thresholdPercent)

/-! ## Tasks of the CPU pool -/

/-- `fileIndexing` on a file that could not be opened or had this content. The
frequencies are listed in some order. -/
def runIndexing (oem : OemTable) (s : System) (position : Nat) (content : Option (List Byte))
    (list : List (Word × UInt32)) : Option System :=
  match s.indexing[position]?, content with
  | none, _ => none
  | some _, none => some { s with indexing := s.indexing.eraseIdx position }
  | some task, some bytes =>
      if list.Perm (batchList oem bytes) then
        some { s with
          indexing := s.indexing.eraseIdx position
          strand := s.strand ++ [.processBatch ⟨task.ticket, task.fileId, task.path, task.metadata,
            task.requireCatalogCommitBeforePublish, list⟩] }
      else none

/-- `commitChunkMap` of a published batch. -/
def runCommit (s : System) (position : Nat) : Option System :=
  (s.commits[position]?).map fun groups => { s with
    index := { s.index with dictionaryChunks := s.index.dictionaryChunks.commitChunkMap groups }
    commits := s.commits.eraseIdx position }

/-! ## Requests -/

/-- `enqueueFileUpdate`; nothing is posted for a path that is not a regular file. -/
def enqueueFileUpdate (s : System) (path : Path) (found : Option DocumentMetadata) : Option System :=
  if s.updating then none
  else
    match found with
    | none => some { s with index := s.index.prepareLegacyMutableState }
    | some metadata => some { s with
        index := s.index.prepareLegacyMutableState
        strand := s.strand ++ [.upsert s.nextTicket path metadata]
        nextTicket := s.nextTicket + 1 }

/-- `enqueueFileDeletion`; a path without a catalog entry is not accepted. -/
def enqueueFileDeletion (s : System) (path : Path) : Option System :=
  if s.updating then none
  else
    match s.catalog.findByPath s.db path with
    | none => some s
    | some document => some { s with
        strand := s.strand ++ [.softDelete s.nextTicket document.id path]
        nextTicket := s.nextTicket + 1 }

/-- The indexing task of a scan item. -/
def scanTask (paths : List Path) (item : CatalogScanItem) : IndexingTask :=
  ⟨none, item.id, paths.getD item.pathIndex [], item.metadata, false⟩

/-- `updateDocumentBase` up to the dispatch of the indexing tasks. Erasure and
deletion marks run synchronously on the idle strand. -/
def updateDocumentBase (s : System) (paths : List Path) (stat : Stat) : Option System :=
  if s.updating || !decide s.Idle then none
  else
    let ready := { s with
      index := s.index.prepareLegacyMutableState
      catalog := (s.catalog.scan s.db stat paths).1 }
    match (s.catalog.scan s.db stat paths).2 with
    | none => some ready
    | some diff =>
        if diff.added.isEmpty && diff.updated.isEmpty && diff.removed.isEmpty then some ready
        else some { ready with
          index := (diff.updated.map CatalogScanItem.id).foldl InvertedIndex.safeEraseFileInternal ready.index
          catalog := diff.removed.foldl DocumentCatalog.markRemoved ready.catalog
          queue := s.queue ++ diff.removed.map .markDeleted
          indexing := (diff.added ++ diff.updated).map (scanTask paths)
          updating := true }

/-- The end of `updateDocumentBase`: all files are indexed or timed out. -/
def finishUpdate (s : System) (order : IterationOrder) : Option System :=
  if s.updating then (s.flushPending order).map fun flushed => { flushed with updating := false }
  else none

/-- The transition function. -/
def step (oem : OemTable) (s : System) : Action → Option System
  | .enqueueFileUpdate path found => s.enqueueFileUpdate path found
  | .enqueueFileDeletion path => s.enqueueFileDeletion path
  | .compact thresholdPercent => some { s with strand := s.strand ++ [.compact thresholdPercent] }
  | .updateDocumentBase paths stat => s.updateDocumentBase paths stat
  | .finishUpdate order => s.finishUpdate order
  | .runStrand order => s.runStrand order
  | .runIndexing position content list => s.runIndexing oem position content list
  | .runCommit position => s.runCommit position
  | .writeQueue order => s.flushPending order

/-- The system as a machine. -/
def machine (oem : OemTable) : Machine System Action := ⟨step oem⟩

/-- `DocumentCatalogStorage`. -/
inductive CatalogStorage where
  | memory
  | sqlite
  deriving DecidableEq

/-- The catalog of a started index: rows loaded into memory, or counters only. -/
def openCatalog (storage : CatalogStorage) (db : Database) : DocumentCatalog :=
  match storage with
  | .memory => .memory (.rebuildFromRows db)
  | .sqlite => .sqlite (.opened db)

/-- An index started on a database that `load` accepts. -/
def start (storage : CatalogStorage) (db : Database) (precountPostings : Bool) : Option System :=
  (db.load precountPostings).map fun index =>
    ⟨openCatalog storage db, index, db, [], [], [], [], false, 0⟩

end System

end SearchEngine.Index
