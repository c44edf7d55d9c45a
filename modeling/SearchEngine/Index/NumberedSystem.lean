import SearchEngine.Index.SystemInvariant

/-!
# Numbers in every reached state

Whatever the events and the scans were, the numbers in the catalog, in the rows and
in every task under way are below the next free one, and no path has two rows.
-/

namespace SearchEngine.Index

open SearchEngine.Lib

namespace DocPaths

variable {paths : DocPaths} {stat : Stat} {scanned : List Path}

/-- A scan in memory keeps the numbers, also when a path is listed twice. -/
theorem WellFormed.scan_numbers (wellFormed : paths.WellFormed) (stat : Stat) (scanned : List Path) :
    (paths.scan stat scanned).1.WellFormed ∧ paths.nextId ≤ (paths.scan stat scanned).1.nextId ∧
      ∀ diff, (paths.scan stat scanned).2 = some diff →
        ∀ item ∈ diff.added ++ diff.updated, item.id < (paths.scan stat scanned).1.nextId := by
  have noneAdded : ∀ id ∈ (⟨[], [], []⟩ : UpdatePack).added, paths.nextId ≤ id := by simp
  obtain ⟨visitedWellFormed, above, -⟩ :=
    DocPaths.WellFormed.visitPaths stat scanned wellFormed le_rfl noneAdded
  unfold DocPaths.scan DocPaths.getUpdate
  rcases visitedEq : DocPaths.visitPaths stat scanned paths ⟨[], [], []⟩ with ⟨visited, result⟩
  rw [visitedEq] at visitedWellFormed above
  cases result with
  | none => exact ⟨visitedWellFormed, above, fun _ done => by cases done⟩
  | some pack =>
      obtain ⟨flagged, sameNext⟩ := visitedWellFormed.flagAll (visited.unseen scanned).keys
      refine ⟨flagged, by rw [sameNext]; exact above, ?_⟩
      intro diff done item member
      obtain rfl := Option.some.inj done
      have located : ∃ path info, (((visited.unseen scanned).keys.foldl (fun marked path =>
          ({ marked with path2info := marked.path2info.modify path fun info =>
            { info with deleted := true } } : DocPaths)) visited).path2info.find? path) = some info ∧
            info.id = item.id := by
        rcases List.mem_append.mp member with isAdded | isUpdated
        · exact (mem_scanItems isAdded).2
        · exact (mem_scanItems isUpdated).2
      obtain ⟨path, info, found, same⟩ := located
      exact same ▸ flagged.id_lt found

end DocPaths

namespace DocumentCatalog

/-- A scan keeps the numbers below the next free one. -/
theorem NumbersBelow.scan_numbers {catalog : DocumentCatalog} {db : Database}
    (below : catalog.NumbersBelow db) (stat : Stat) (scanned : List Path) :
    (catalog.scan db stat scanned).1.NumbersBelow db ∧
      catalog.nextId ≤ (catalog.scan db stat scanned).1.nextId ∧
      ∀ diff, (catalog.scan db stat scanned).2 = some diff →
        ∀ item ∈ diff.added ++ diff.updated, item.id < (catalog.scan db stat scanned).1.nextId := by
  cases catalog with
  | memory paths => exact DocPaths.WellFormed.scan_numbers below stat scanned
  | sqlite state =>
      by_cases distinct : scanned.Nodup
      · obtain ⟨numbers, above, fresh⟩ := below.scan stat distinct
        exact ⟨numbers, above, fun diff done => (fresh diff done).below⟩
      · refine ⟨?_, ?_, fun diff done => ?_⟩
        · simpa only [DocumentCatalog.scan, SQLiteCatalog.scan, if_neg distinct] using below
        · simp only [DocumentCatalog.scan, SQLiteCatalog.scan, if_neg distinct]
          exact le_rfl
        · simp [DocumentCatalog.scan, SQLiteCatalog.scan, distinct] at done

end DocumentCatalog

namespace System

variable {oem : OemTable} {s next : System}

/-- Numbers in use are below the next free one, and the rows have distinct paths. -/
structure Numbered (s : System) : Prop where
  numbers : s.catalog.NumbersBelow s.db
  unique : s.db.PathsUnique
  indexing : ∀ task ∈ s.indexing, task.fileId < s.catalog.nextId
  batches : ∀ batch, StrandTask.processBatch batch ∈ s.strand → batch.fileId < s.catalog.nextId
  queued : ∀ file, LiveMirrorOp.write file ∈ s.queue → file.fileId < s.catalog.nextId

theorem Numbered.flushPending {order : IterationOrder} (numbered : s.Numbered)
    (flushed : s.flushPending order = some next) : next.Numbered := by
  obtain ⟨db, written, rfl⟩ := flushPending_eq flushed
  exact { numbered with
    numbers := numbersBelow_writeBatch numbered.numbers numbered.queued written
    unique := numbered.unique.writeBatch written
    queued := by simp }

/-- A task leaves the strand. -/
theorem Numbered.drop {task : StrandTask} {rest : List StrandTask} (numbered : s.Numbered)
    (front : s.strand = task :: rest) : ({ s with strand := rest } : System).Numbered :=
  { numbered with
    batches := fun batch member => numbered.batches batch (front ▸ List.mem_cons_of_mem _ member) }

/-- A task without a batch is posted. -/
theorem Numbered.post {task : StrandTask} (numbered : s.Numbered) (noBatch : task.batchFile = none)
    (ticket : Nat) :
    ({ s with strand := s.strand ++ [task], nextTicket := ticket } : System).Numbered := by
  refine { numbered with batches := fun batch member => ?_ }
  rcases List.mem_append.mp member with old | new
  · exact numbered.batches batch old
  · rw [← List.mem_singleton.mp new] at noBatch
    cases noBatch

theorem Numbered.withIndex (numbered : s.Numbered) (index : InvertedIndex)
    (commits : List DictionaryChunks.ChunkMap) :
    ({ s with index := index, commits := commits } : System).Numbered :=
  { numbered with }

theorem Numbered.runUpsert (numbered : s.Numbered) (ticket : Nat) (path : Path)
    (metadata : DocumentMetadata) : (s.runUpsert ticket path metadata).Numbered := by
  obtain ⟨numbers, small, above⟩ := numbered.numbers.upsert path metadata
  have batches : ∀ batch, StrandTask.processBatch batch ∈ s.strand →
      batch.fileId < (s.catalog.upsert s.db path metadata).1.nextId :=
    fun batch member => (numbered.batches batch member).trans_le above
  have queued : ∀ file, LiveMirrorOp.write file ∈ s.queue →
      file.fileId < (s.catalog.upsert s.db path metadata).1.nextId :=
    fun file member => (numbered.queued file member).trans_le above
  have indexing : ∀ task ∈ s.indexing, task.fileId < (s.catalog.upsert s.db path metadata).1.nextId :=
    fun task member => (numbered.indexing task member).trans_le above
  unfold System.runUpsert
  dsimp only
  split
  · refine ⟨numbers, numbered.unique, fun task member => ?_, batches, queued⟩
    rcases List.mem_append.mp member with old | new
    · exact indexing task old
    · rw [List.mem_singleton.mp new]
      exact small
  · exact ⟨numbers, numbered.unique, indexing, batches, queued⟩

theorem Numbered.markRemoved (numbered : s.Numbered) (ids : List FileId) :
    ({ s with catalog := ids.foldl DocumentCatalog.markRemoved s.catalog } : System).Numbered := by
  obtain ⟨numbers, sameNext⟩ := numbered.numbers.foldl_markRemoved ids
  exact {
    numbers := numbers
    unique := numbered.unique
    indexing := sameNext.symm ▸ numbered.indexing
    batches := sameNext.symm ▸ numbered.batches
    queued := sameNext.symm ▸ numbered.queued }

theorem Numbered.queueMarks (numbered : s.Numbered) (ids : List FileId) :
    ({ s with queue := s.queue ++ ids.map .markDeleted } : System).Numbered := by
  refine { numbered with queued := fun file member => ?_ }
  rcases List.mem_append.mp member with old | new
  · exact numbered.queued file old
  · obtain ⟨_, _, impossible⟩ := List.mem_map.mp new
    cases impossible

theorem Numbered.runProcessBatch {order : IterationOrder} {batch : PostingBatch}
    (numbered : s.Numbered) (small : batch.fileId < s.catalog.nextId)
    (done : s.runProcessBatch order batch = some next) : next.Numbered := by
  by_cases noWords : batch.list = []
  · rw [System.runProcessBatch, noWords] at done
    obtain rfl := Option.some.inj done
    exact numbered
  · have staged : (s.staged batch).Numbered := by
      refine { numbered with queued := fun file member => ?_ }
      rcases List.mem_append.mp member with old | new
      · exact numbered.queued file old
      · have same := LiveMirrorOp.write.inj (List.mem_singleton.mp new)
        rw [same]
        exact small
    rw [runProcessBatch_eq s order batch noWords] at done
    split at done
    · obtain ⟨flushed, flush, rfl⟩ := Option.map_eq_some_iff.mp done
      have after := staged.flushPending flush
      have sameNext := DocumentCatalog.nextId_notePersisted flushed.catalog batch.path batch.fileId
      exact {
        numbers := after.numbers.notePersisted batch.path batch.fileId
        unique := after.unique
        indexing := sameNext.symm ▸ after.indexing
        batches := sameNext.symm ▸ after.batches
        queued := sameNext.symm ▸ after.queued }
    · obtain rfl := Option.some.inj done
      exact staged

theorem Numbered.runStrand {order : IterationOrder} (numbered : s.Numbered)
    (done : s.runStrand order = some next) : next.Numbered := by
  unfold System.runStrand at done
  cases front : s.strand with
  | nil =>
      rw [front] at done
      cases done
  | cons task rest =>
      rw [front] at done
      have dropped := numbered.drop front
      cases task with
      | upsert ticket path metadata =>
          obtain rfl := Option.some.inj done
          exact dropped.runUpsert ticket path metadata
      | softDelete ticket id path =>
          obtain ⟨flushed, flush, rfl⟩ := Option.map_eq_some_iff.mp done
          exact ((dropped.queueMarks [id]).flushPending flush).markRemoved [id]
      | processBatch batch =>
          exact dropped.runProcessBatch (numbered.batches batch (front ▸ List.mem_cons_self)) done
      | compact thresholdPercent =>
          obtain rfl := Option.some.inj done
          simp only [System.runCompact]
          split
          · exact dropped
          · exact dropped.withIndex _ _

theorem Numbered.runIndexing {position : Nat} {content : Option (List Byte)}
    {list : List (Word × UInt32)} (numbered : s.Numbered)
    (done : s.runIndexing oem position content list = some next) : next.Numbered := by
  have others : ∀ task ∈ s.indexing.eraseIdx position, task.fileId < s.catalog.nextId :=
    fun task member => numbered.indexing task (List.mem_of_mem_eraseIdx member)
  unfold System.runIndexing at done
  cases located : s.indexing[position]? with
  | none =>
      rw [located] at done
      cases done
  | some task =>
      rw [located] at done
      cases content with
      | none =>
          obtain rfl := Option.some.inj done
          exact { numbered with indexing := others }
      | some bytes =>
          dsimp only at done
          split at done
          · obtain rfl := Option.some.inj done
            refine { numbered with indexing := others, batches := fun batch member => ?_ }
            rcases List.mem_append.mp member with old | new
            · exact numbered.batches batch old
            · have same := StrandTask.processBatch.inj (List.mem_singleton.mp new)
              rw [same]
              exact numbered.indexing task (List.mem_of_getElem? located)
          · cases done

theorem Numbered.updateDocumentBase {paths : List Path} {stat : Stat} (numbered : s.Numbered)
    (done : s.updateDocumentBase paths stat = some next) : next.Numbered := by
  obtain ⟨numbers, above, small⟩ := numbered.numbers.scan_numbers stat paths
  have ready : ({ s with
      index := s.index.prepareLegacyMutableState
      catalog := (s.catalog.scan s.db stat paths).1 } : System).Numbered :=
    ⟨numbers, numbered.unique, fun task member => (numbered.indexing task member).trans_le above,
      fun batch member => (numbered.batches batch member).trans_le above,
      fun file member => (numbered.queued file member).trans_le above⟩
  unfold System.updateDocumentBase at done
  split at done
  · cases done
  · dsimp only at done
    cases scanned : (s.catalog.scan s.db stat paths).2 with
    | none =>
        rw [scanned] at done
        obtain rfl := Option.some.inj done
        exact ready
    | some diff =>
        rw [scanned] at done
        dsimp only at done
        split at done
        · obtain rfl := Option.some.inj done
          exact ready
        · obtain rfl := Option.some.inj done
          have marked := (ready.markRemoved diff.removed).queueMarks diff.removed
          refine ⟨marked.numbers, marked.unique, fun task member => ?_, marked.batches, marked.queued⟩
          obtain ⟨item, listed, rfl⟩ := List.mem_map.mp member
          have sameNext := (numbers.foldl_markRemoved diff.removed).2
          rw [sameNext]
          exact small diff scanned item listed

/-- Every step keeps the numbers. -/
theorem Numbered.step {action : Action} (numbered : s.Numbered) (done : s.step oem action = some next) :
    next.Numbered := by
  cases action with
  | enqueueFileUpdate path found =>
      simp only [System.step, System.enqueueFileUpdate] at done
      split at done
      · cases done
      · split at done
        · obtain rfl := Option.some.inj done
          exact numbered.withIndex _ _
        · obtain rfl := Option.some.inj done
          have ready := numbered.withIndex s.index.prepareLegacyMutableState s.commits
          refine ready.post ?_ _
          rfl
  | enqueueFileDeletion path =>
      simp only [System.step, System.enqueueFileDeletion] at done
      split at done
      · cases done
      · split at done
        · obtain rfl := Option.some.inj done
          exact numbered
        · obtain rfl := Option.some.inj done
          exact numbered.post rfl _
  | compact thresholdPercent =>
      obtain rfl := Option.some.inj done
      exact numbered.post rfl s.nextTicket
  | updateDocumentBase paths stat => exact numbered.updateDocumentBase done
  | finishUpdate order =>
      simp only [System.step, System.finishUpdate] at done
      split at done
      · obtain ⟨flushed, flush, rfl⟩ := Option.map_eq_some_iff.mp done
        exact { numbered.flushPending flush with }
      · cases done
  | runStrand order => exact numbered.runStrand done
  | runIndexing position content list => exact numbered.runIndexing done
  | runCommit position =>
      obtain ⟨groups, _, rfl⟩ := Option.map_eq_some_iff.mp done
      exact numbered.withIndex _ _
  | writeQueue order => exact numbered.flushPending done

theorem numbered_start {storage : CatalogStorage} {db : Database} {precountPostings : Bool}
    (unique : db.PathsUnique) (started : start storage db precountPostings = some s) : s.Numbered := by
  obtain ⟨index, -, rfl⟩ := Option.map_eq_some_iff.mp started
  exact ⟨numbersBelow_openCatalog storage db, unique, by simp, by simp, by simp⟩

/-- Every state reached from a started index is numbered. -/
theorem Numbered.run {actions : List Action} {final : System} (numbered : s.Numbered)
    (done : (machine oem).run s actions = some final) : final.Numbered :=
  Machine.invariant_reachable (fun _ _ _ before taken => before.step taken) numbered done

end System

end SearchEngine.Index
