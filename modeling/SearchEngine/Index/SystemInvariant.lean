import SearchEngine.Index.Engine
import SearchEngine.Index.PostingInvariant

/-!
# What holds between the steps of the system

A monitored run records beside the state what every document is expected to
contain. `Coherent` ties that history to the index, to the pending commits and to
the tasks in flight, and every `Tame` step keeps it. A step is tame when it does
not overlap two changes of one document and does not renumber words under a
pending commit.
-/

namespace SearchEngine.Index

open SearchEngine.Lib

/-- The document a strand task adds a batch to. -/
def StrandTask.batchFile : StrandTask → Option FileId
  | .processBatch batch => some batch.fileId
  | _ => none

/-- A point event, as the strand handles it. -/
inductive PointEvent where
  | update (ticket : Nat)
  | deletion
  deriving DecidableEq

/-- What a run is expected to have left behind: the counts of every document, the
path and metadata of its last batch and the counts it listed, whether the last try
to read the document failed, the last change of every path and the bytes read for
a ticket. -/
structure History where
  expected : FileId → Word → Option UInt16
  indexedAs : FileId → Option (Path × DocumentMetadata)
  lastIndexed : FileId → Word → Option UInt16
  unread : FileId → Bool
  lastChange : Path → Option PointEvent
  contentRead : Nat → Option (List Byte)

namespace System

variable {oem : OemTable} {s next : System} {history : History}

/-- The documents with an indexing task or a batch the strand has not processed. -/
def inFlight (s : System) : List FileId :=
  s.indexing.map IndexingTask.fileId ++ s.strand.filterMap StrandTask.batchFile

/-- The postings of the commits that have not run. -/
def pendingTasks (s : System) : List PostingTask := s.commits.flatMap DictionaryChunks.ChunkMap.tasks

/-- No part of an earlier change of the document is under way. -/
def Settled (s : System) (fileId : FileId) : Prop :=
  fileId ∉ s.inFlight ∧ InvertedIndex.NotPending s.pendingTasks fileId

instance (s : System) (fileId : FileId) : Decidable (s.Settled fileId) :=
  inferInstanceAs (Decidable (_ ∧ ∀ task ∈ s.pendingTasks, _))

/-- The history of a started index: the loaded counts. -/
def loadedHistory (s : System) : History :=
  ⟨fun fileId word => s.index.answer word fileId, fun _ => none,
    fun fileId word => s.index.answer word fileId, fun _ => false, fun _ => none, fun _ => none⟩

/-- Record the end of a document's change. -/
def observeStrand (s : System) (history : History) : StrandTask → History
  | .upsert ticket path metadata =>
      if (s.catalog.upsert s.db path metadata).2.2 then
        { history with lastChange := Function.update history.lastChange path (some (.update ticket)) }
      else history
  | .softDelete _ _ path =>
      { history with lastChange := Function.update history.lastChange path (some .deletion) }
  | .processBatch batch => { history with
      expected := Function.update history.expected batch.fileId (InvertedIndex.batchCounts batch.list)
      indexedAs := Function.update history.indexedAs batch.fileId (some (batch.path, batch.metadata))
      lastIndexed := Function.update history.lastIndexed batch.fileId
        (InvertedIndex.batchCounts batch.list)
      unread := Function.update history.unread batch.fileId false }
  | .compact _ => history

/-- Record the bytes a task reads; a document that cannot be opened keeps no postings. -/
def observeIndexing (history : History) (task : IndexingTask) : Option (List Byte) → History
  | none => { history with
      expected := Function.update history.expected task.fileId fun _ => none
      unread := Function.update history.unread task.fileId true }
  | some bytes =>
      match task.ticket with
      | some ticket => { history with
          contentRead := Function.update history.contentRead ticket (some bytes) }
      | none => history

/-- The history after an action taken in `s`. -/
def observe (s : System) (action : Action) (history : History) : History :=
  match action with
  | .runStrand _ => (s.strand.head?.map (observeStrand s history)).getD history
  | .runIndexing position content _ =>
      (s.indexing[position]?.map fun task => observeIndexing history task content).getD history
  | _ => history

/-- The system with its recorded history. -/
def monitored (oem : OemTable) : Machine (System × History) Action := (machine oem).monitor observe

/-- A compaction at the front of the strand would renumber words. -/
def Renumbers (s : System) (thresholdPercent : ℚ) : Prop :=
  s.updating = false ∧
    InvertedIndex.compactRuns s.index.holes s.index.wordIds.size thresholdPercent = true

instance (s : System) (thresholdPercent : ℚ) : Decidable (s.Renumbers thresholdPercent) :=
  inferInstanceAs (Decidable (_ ∧ _))

/-- The condition on the strand task about to run: a change of a document starts
after its earlier changes, a renumbering after all commits. -/
def TameStrand (s : System) : StrandTask → Prop
  | .upsert _ path metadata =>
      (s.catalog.upsert s.db path metadata).2.2 = true →
        s.Settled (s.catalog.upsert s.db path metadata).2.1
  | .compact thresholdPercent => s.Renumbers thresholdPercent → s.commits = []
  | _ => True

instance (s : System) (task : StrandTask) : Decidable (s.TameStrand task) :=
  match task with
  | .upsert _ _ _ => inferInstanceAs (Decidable (_ = true → Settled _ _))
  | .compact thresholdPercent =>
      decidable_of_iff (s.Renumbers thresholdPercent → s.commits.isEmpty = true)
        (by rw [TameStrand, List.isEmpty_iff])
  | .softDelete _ _ _ | .processBatch _ => isTrue trivial

/-- The condition on a step that keeps the index coherent. -/
def Tame (s : System) : Action → Prop
  | .runStrand _ => ∀ task ∈ s.strand.head?, s.TameStrand task
  | .updateDocumentBase paths _ => paths.Nodup
  | _ => True

instance (s : System) (action : Action) : Decidable (s.Tame action) :=
  match action with
  | .runStrand _ => inferInstanceAs (Decidable (∀ task ∈ s.strand.head?, s.TameStrand task))
  | .updateDocumentBase paths _ => inferInstanceAs (Decidable paths.Nodup)
  | .enqueueFileUpdate _ _ | .enqueueFileDeletion _ | .compact _ | .finishUpdate _
  | .runIndexing _ _ _ | .runCommit _ | .writeQueue _ => isTrue trivial

/-- What holds of the state and the recorded history between steps. -/
structure Coherent (s : System) (history : History) : Prop where
  postings : s.index.PostingsInvariant s.pendingTasks (· ∈ s.inFlight) history.expected s.catalog.nextId
  single : s.inFlight.Nodup
  numbers : s.catalog.NumbersBelow s.db
  flying : ∀ fileId ∈ s.inFlight, fileId < s.catalog.nextId
  queued : ∀ file, LiveMirrorOp.write file ∈ s.queue → file.fileId < s.catalog.nextId
  batches : ∀ batch, StrandTask.processBatch batch ∈ s.strand →
    (batch.list.map Prod.fst).Nodup ∧ ∀ entry ∈ batch.list, entry.1 ≠ []

/-! ## Flushing -/

/-- A flush changes the database and empties the queue. -/
theorem flushPending_eq {order : IterationOrder} (flushed : s.flushPending order = some next) :
    ∃ db, s.db.writeBatch order s.queue = some db ∧ next = { s with db := db, queue := [] } := by
  obtain ⟨db, written, rfl⟩ := Option.map_eq_some_iff.mp flushed
  exact ⟨db, written, rfl⟩

/-- The catalog numbers stay below the next free one when queued writes do. -/
theorem numbersBelow_writeBatch {catalog : DocumentCatalog} {db after : Database}
    {order : IterationOrder} {queue : List LiveMirrorOp} (below : catalog.NumbersBelow db)
    (queued : ∀ file, LiveMirrorOp.write file ∈ queue → file.fileId < catalog.nextId)
    (written : db.writeBatch order queue = some after) : catalog.NumbersBelow after := by
  cases catalog with
  | memory paths => exact below
  | sqlite state =>
      obtain ⟨pendingBelow, docsBelow⟩ := below
      refine ⟨pendingBelow, ?_⟩
      intro fileId row found
      have record : (mirrorRules.applyAll db.records queue fileId).row = some row := by
        rw [← (Database.writeBatch_spec written).1]
        exact found
      rcases isSome_row_applyAll (Option.isSome_iff_exists.mpr ⟨row, record⟩) with old | new
      · obtain ⟨oldRow, oldFound⟩ := Option.isSome_iff_exists.mp old
        exact docsBelow fileId oldRow oldFound
      · obtain ⟨file, member, rfl⟩ := new
        exact queued file member

theorem Coherent.flushPending {order : IterationOrder} (coherent : s.Coherent history)
    (flushed : s.flushPending order = some next) : next.Coherent history := by
  obtain ⟨db, written, rfl⟩ := flushPending_eq flushed
  exact { coherent with
    numbers := numbersBelow_writeBatch coherent.numbers coherent.queued written
    queued := by simp }

/-! ## Tasks of the strand -/

theorem Coherent.runUpsert (coherent : s.Coherent history) {ticket : Nat} {path : Path}
    {metadata : DocumentMetadata} (tame : s.TameStrand (.upsert ticket path metadata)) :
    (s.runUpsert ticket path metadata).Coherent
      (observeStrand s history (.upsert ticket path metadata)) := by
  obtain ⟨numbers, small, above⟩ := coherent.numbers.upsert path metadata
  have flying : ∀ fileId ∈ s.inFlight, fileId < (s.catalog.upsert s.db path metadata).1.nextId :=
    fun fileId member => (coherent.flying fileId member).trans_le above
  have queued : ∀ file, LiveMirrorOp.write file ∈ s.queue →
      file.fileId < (s.catalog.upsert s.db path metadata).1.nextId :=
    fun file member => (coherent.queued file member).trans_le above
  by_cases changed : (s.catalog.upsert s.db path metadata).2.2 = true
  · obtain ⟨grounded, settled⟩ := tame changed
    have postings := coherent.postings.mono above
    have erased : (if (s.index.wordRefs.find? (s.catalog.upsert s.db path metadata).2.1).isSome then
        s.index.safeEraseFileInternal (s.catalog.upsert s.db path metadata).2.1
        else s.index).PostingsInvariant s.pendingTasks
          (fun other => other ∈ s.inFlight ∨ other = (s.catalog.upsert s.db path metadata).2.1)
          history.expected (s.catalog.upsert s.db path metadata).1.nextId := by
      split
      · exact postings.erase settled
      · rename_i unreferenced
        refine postings.claim fun wordId => ?_
        rw [← Option.not_isSome_iff_eq_none, ← postings.referenced, InvertedIndex.refsOf]
        rw [Option.not_isSome_iff_eq_none] at unreferenced
        simp [unreferenced]
    rw [System.runUpsert, if_pos changed, observeStrand, if_pos changed]
    have permuted : (({ s with indexing := s.indexing ++ [(⟨some ticket,
        (s.catalog.upsert s.db path metadata).2.1, path, metadata, true⟩ : IndexingTask)] } :
          System).inFlight).Perm ((s.catalog.upsert s.db path metadata).2.1 :: s.inFlight) := by
      simp [inFlight]
    constructor
    case postings =>
      refine erased.congr (.refl _) fun fileId => permuted.mem_iff.trans ?_
      rw [List.mem_cons, or_comm]
    case single => exact permuted.nodup_iff.mpr (List.nodup_cons.mpr ⟨grounded, coherent.single⟩)
    case numbers => exact numbers
    case flying =>
      intro fileId member
      rcases List.mem_cons.mp (permuted.mem_iff.mp member) with rfl | old
      · exact small
      · exact flying fileId old
    case queued => exact queued
    case batches => exact coherent.batches
  · rw [System.runUpsert, if_neg changed, observeStrand, if_neg changed]
    exact {
      postings := coherent.postings.mono above
      single := coherent.single
      numbers := numbers
      flying := flying
      queued := queued
      batches := coherent.batches }

/-- Histories with the same expected counts. -/
theorem Coherent.of_expected {other : History} (coherent : s.Coherent history)
    (same : other.expected = history.expected) : s.Coherent other :=
  { coherent with postings := same ▸ coherent.postings }

/-- A strand task without a batch leaves the strand. -/
theorem Coherent.dropTask {task : StrandTask} {rest : List StrandTask} (coherent : s.Coherent history)
    (front : s.strand = task :: rest) (noBatch : task.batchFile = none) :
    ({ s with strand := rest } : System).Coherent history := by
  have sameFlights : ({ s with strand := rest } : System).inFlight = s.inFlight := by
    rw [inFlight, inFlight, front, List.filterMap_cons_none noBatch]
  constructor
  · rw [sameFlights]
    exact coherent.postings
  · rw [sameFlights]
    exact coherent.single
  · exact coherent.numbers
  · rw [sameFlights]
    exact coherent.flying
  · exact coherent.queued
  · exact fun batch member => coherent.batches batch (front ▸ List.mem_cons_of_mem _ member)

/-- A task without a batch is posted to the strand. -/
theorem Coherent.post {task : StrandTask} (coherent : s.Coherent history)
    (noBatch : task.batchFile = none) (ticket : Nat) :
    ({ s with strand := s.strand ++ [task], nextTicket := ticket } : System).Coherent history := by
  have sameFlights : ({ s with strand := s.strand ++ [task], nextTicket := ticket } : System).inFlight =
      s.inFlight := by
    rw [inFlight, inFlight, List.filterMap_append, List.filterMap_cons_none noBatch, List.filterMap_nil,
      List.append_nil]
  constructor
  · rw [sameFlights]
    exact coherent.postings
  · rw [sameFlights]
    exact coherent.single
  · exact coherent.numbers
  · rw [sameFlights]
    exact coherent.flying
  · exact coherent.queued
  · intro batch member
    rcases List.mem_append.mp member with old | new
    · exact coherent.batches batch old
    · rw [← List.mem_singleton.mp new] at noBatch
      cases noBatch

theorem Coherent.markRemoved (coherent : s.Coherent history) (ids : List FileId) :
    ({ s with catalog := ids.foldl DocumentCatalog.markRemoved s.catalog } : System).Coherent history := by
  obtain ⟨numbers, sameNext⟩ := coherent.numbers.foldl_markRemoved ids
  exact {
    postings := sameNext.symm ▸ coherent.postings
    single := coherent.single
    numbers := numbers
    flying := sameNext.symm ▸ coherent.flying
    queued := sameNext.symm ▸ coherent.queued
    batches := coherent.batches }

theorem Coherent.queueMarks (coherent : s.Coherent history) (ids : List FileId) :
    ({ s with queue := s.queue ++ ids.map .markDeleted } : System).Coherent history := by
  refine { coherent with queued := ?_ }
  intro file member
  rcases List.mem_append.mp member with old | new
  · exact coherent.queued file old
  · obtain ⟨_, _, impossible⟩ := List.mem_map.mp new
    cases impossible

theorem Coherent.runSoftDelete {order : IterationOrder} {id : FileId}
    (coherent : s.Coherent history) (done : s.runSoftDelete order id = some next) :
    next.Coherent history := by
  obtain ⟨flushed, flush, rfl⟩ := Option.map_eq_some_iff.mp done
  have marked : ({ s with queue := s.queue ++ [.markDeleted id] } : System).Coherent history :=
    coherent.queueMarks [id]
  exact (marked.flushPending flush).markRemoved [id]

/-- The state that `processBatch` publishes before its flush. -/
def staged (s : System) (batch : PostingBatch) : System :=
  { s with
    index := s.index.registerBatch batch.fileId batch.list
    queue := s.queue ++ [batchWrite batch (s.index.passWords batch.fileId batch.list)]
    commits := s.commits ++ [DictionaryChunks.groupByChunk
      (InvertedIndex.batchTasks batch.fileId (s.index.passWords batch.fileId batch.list).widMap)] }

/-- A batch with words is staged; a point update is flushed and noted in the catalog. -/
theorem runProcessBatch_eq (s : System) (order : IterationOrder) (batch : PostingBatch)
    (filled : batch.list ≠ []) :
    s.runProcessBatch order batch =
      if batch.requireCatalogCommitBeforePublish then
        ((s.staged batch).flushPending order).map fun flushed =>
          { flushed with catalog := flushed.catalog.notePersisted batch.path batch.fileId }
      else some (s.staged batch) := by
  have nonempty : batch.list.isEmpty = false := by simpa using filled
  rw [runProcessBatch, nonempty, if_neg (by simp)]
  cases batch.requireCatalogCommitBeforePublish with
  | false => rfl
  | true =>
      simp only [if_true, System.flushPending, Option.map_map]
      rfl

/-- The strand runs its oldest task and posts none. -/
theorem runStrand_strand {order : IterationOrder} (done : s.runStrand order = some next) :
    ∃ task rest, s.strand = task :: rest ∧ next.strand = rest := by
  unfold System.runStrand at done
  cases front : s.strand with
  | nil =>
      rw [front] at done
      cases done
  | cons task rest =>
      rw [front] at done
      refine ⟨task, rest, rfl, ?_⟩
      have flushStrand : ∀ before after : System, before.flushPending order = some after →
          after.strand = before.strand := by
        intro before after flush
        obtain ⟨db, _, rfl⟩ := flushPending_eq flush
        rfl
      cases task with
      | upsert ticket path metadata =>
          obtain rfl := Option.some.inj done
          simp only [System.runUpsert]
          split <;> rfl
      | softDelete ticket id path =>
          obtain ⟨flushed, flush, rfl⟩ := Option.map_eq_some_iff.mp done
          exact flushStrand _ _ flush
      | processBatch batch =>
          by_cases noWords : batch.list = []
          · simp only [System.runProcessBatch, noWords] at done
            obtain rfl := Option.some.inj done
            rfl
          · simp only [runProcessBatch_eq _ _ _ noWords] at done
            split at done
            · obtain ⟨flushed, flush, rfl⟩ := Option.map_eq_some_iff.mp done
              exact flushStrand _ _ flush
            · obtain rfl := Option.some.inj done
              rfl
      | compact thresholdPercent =>
          obtain rfl := Option.some.inj done
          simp only [System.runCompact]
          split <;> rfl

theorem mem_iff_of_perm_cons {fileId : FileId} {before after : List FileId}
    (permuted : before.Perm (fileId :: after)) (distinct : before.Nodup) (other : FileId) :
    other ∈ after ↔ other ∈ before ∧ other ≠ fileId := by
  obtain ⟨grounded, _⟩ := List.nodup_cons.mp (permuted.nodup_iff.mp distinct)
  rw [permuted.mem_iff, List.mem_cons]
  constructor
  · exact fun listed => ⟨.inr listed, fun same => grounded (same ▸ listed)⟩
  · exact fun listed => listed.1.resolve_left listed.2

theorem Coherent.staged {batch : PostingBatch} {rest : List StrandTask} (coherent : s.Coherent history)
    (front : s.strand = .processBatch batch :: rest) :
    (({ s with strand := rest } : System).staged batch).Coherent
      (observeStrand s history (.processBatch batch)) := by
  have permuted : s.inFlight.Perm (batch.fileId :: ({ s with strand := rest } : System).inFlight) := by
    simp [inFlight, front, StrandTask.batchFile]
  have single := (List.nodup_cons.mp (permuted.nodup_iff.mp coherent.single)).2
  have flies : batch.fileId ∈ s.inFlight := permuted.mem_iff.mpr List.mem_cons_self
  have busyIff := mem_iff_of_perm_cons permuted coherent.single
  have listed : StrandTask.processBatch batch ∈ s.strand := front ▸ List.mem_cons_self
  have small := coherent.flying batch.fileId flies
  have batched := coherent.postings.batch flies small (coherent.batches batch listed).1
  constructor
  case postings =>
    refine batched.congr ?_ busyIff
    have appended : (({ s with strand := rest } : System).staged batch).pendingTasks =
        s.pendingTasks ++ (DictionaryChunks.groupByChunk (InvertedIndex.batchTasks batch.fileId
          (s.index.passWords batch.fileId batch.list).widMap)).tasks := by
      simp [pendingTasks, System.staged]
    rw [appended]
    exact (DictionaryChunks.perm_tasks_groupByChunk _).symm.append_left _
  case single => exact single
  case numbers => exact coherent.numbers
  case flying => exact fun fileId member => coherent.flying fileId ((busyIff fileId).mp member).1
  case queued =>
    intro file member
    rcases List.mem_append.mp member with old | new
    · exact coherent.queued file old
    · have same := LiveMirrorOp.write.inj (List.mem_singleton.mp new)
      rw [same]
      exact small
  case batches =>
    exact fun other member => coherent.batches other (front ▸ List.mem_cons_of_mem _ member)

/-- A document in flight leaves without a batch. -/
theorem Coherent.release {smaller : System} {fileId : FileId} (coherent : s.Coherent history)
    (permuted : s.inFlight.Perm (fileId :: smaller.inFlight))
    (unchanged : smaller.index = s.index ∧ smaller.commits = s.commits ∧ smaller.catalog = s.catalog ∧
      smaller.db = s.db ∧ smaller.queue = s.queue ∧ ∀ task ∈ smaller.strand, task ∈ s.strand) :
    smaller.Coherent { history with
      expected := Function.update history.expected fileId fun _ => none } := by
  obtain ⟨index, commits, catalog, db, queue, strand⟩ := unchanged
  have single := (List.nodup_cons.mp (permuted.nodup_iff.mp coherent.single)).2
  have flies : fileId ∈ s.inFlight := permuted.mem_iff.mpr List.mem_cons_self
  have busyIff := mem_iff_of_perm_cons permuted coherent.single
  constructor
  case postings =>
    rw [index, pendingTasks, commits, catalog]
    exact (coherent.postings.release flies).congr (.refl _) busyIff
  case single => exact single
  case numbers => rw [catalog, db]; exact coherent.numbers
  case flying =>
    rw [catalog]
    exact fun other member => coherent.flying other ((busyIff other).mp member).1
  case queued => rw [queue, catalog]; exact coherent.queued
  case batches => exact fun batch member => coherent.batches batch (strand _ member)

theorem Coherent.runProcessBatch {order : IterationOrder} {batch : PostingBatch}
    {rest : List StrandTask} (coherent : s.Coherent history)
    (front : s.strand = .processBatch batch :: rest)
    (done : ({ s with strand := rest } : System).runProcessBatch order batch = some next) :
    next.Coherent (observeStrand s history (.processBatch batch)) := by
  by_cases noWords : batch.list = []
  · rw [System.runProcessBatch, noWords, List.isEmpty_nil, if_pos rfl] at done
    obtain rfl := Option.some.inj done
    have permuted : s.inFlight.Perm (batch.fileId :: ({ s with strand := rest } : System).inFlight) := by
      simp [inFlight, front, StrandTask.batchFile]
    refine (coherent.release permuted ⟨rfl, rfl, rfl, rfl, rfl, ?_⟩).of_expected ?_
    · exact fun task member => front ▸ List.mem_cons_of_mem _ member
    · simp only [observeStrand, noWords]
      rfl
  · rw [runProcessBatch_eq _ _ _ noWords] at done
    have staged := coherent.staged front
    split at done
    · obtain ⟨flushed, flush, rfl⟩ := Option.map_eq_some_iff.mp done
      have after := staged.flushPending flush
      have sameNext := DocumentCatalog.nextId_notePersisted flushed.catalog batch.path batch.fileId
      exact {
        postings := sameNext.symm ▸ after.postings
        single := after.single
        numbers := after.numbers.notePersisted batch.path batch.fileId
        flying := sameNext.symm ▸ after.flying
        queued := sameNext.symm ▸ after.queued
        batches := after.batches }
    · obtain rfl := Option.some.inj done
      exact staged

theorem Coherent.runCompact (coherent : s.Coherent history) {thresholdPercent : ℚ}
    (tame : s.TameStrand (.compact thresholdPercent)) :
    (s.runCompact thresholdPercent).Coherent history := by
  unfold System.runCompact
  split
  · exact coherent
  rename_i idle
  unfold InvertedIndex.compact
  split
  · rename_i runs
    have noCommits : s.pendingTasks = [] := by
      rw [pendingTasks, tame ⟨Bool.eq_false_iff.mpr idle, runs⟩, List.flatMap_nil]
    have postings := coherent.postings
    rw [noCommits] at postings
    have after := postings.compacted
    rw [← noCommits] at after
    exact { coherent with postings := after }
  · exact coherent

/-- Every tame step of the strand keeps the invariant. -/
theorem Coherent.runStrand {order : IterationOrder} (coherent : s.Coherent history)
    (tame : ∀ task ∈ s.strand.head?, s.TameStrand task) (done : s.runStrand order = some next) :
    next.Coherent ((s.strand.head?.map (observeStrand s history)).getD history) := by
  unfold System.runStrand at done
  cases front : s.strand with
  | nil =>
      rw [front] at done
      cases done
  | cons task rest =>
      rw [front] at done tame
      have taskTame := tame task rfl
      rw [List.head?_cons, Option.map_some, Option.getD_some]
      cases task with
      | upsert ticket path metadata =>
          obtain rfl := Option.some.inj done
          have dropped := coherent.dropTask front rfl
          refine dropped.runUpsert fun changed => ?_
          have settled := taskTame changed
          rw [Settled, inFlight, front] at settled
          exact settled
      | softDelete ticket id path =>
          exact ((coherent.dropTask front rfl).runSoftDelete done).of_expected rfl
      | processBatch batch => exact coherent.runProcessBatch front done
      | compact thresholdPercent =>
          obtain rfl := Option.some.inj done
          exact (coherent.dropTask front rfl).runCompact taskTame

/-! ## Word numbers -/

theorem passWords_wordIds (index : InvertedIndex) (fileId : FileId) (list : List (Word × UInt32)) :
    (index.passWords fileId list).wordIds = index.wordIds.getIds (list.map Prod.fst) := by
  have folded : ∀ pass : InvertedIndex.BatchPass,
      (list.foldl (InvertedIndex.passWord index.wordIds.size) pass).wordIds =
        pass.wordIds.getIds (list.map Prod.fst) := by
    induction list with
    | nil => exact fun _ => rfl
    | cons entry rest ih => exact fun pass => ih _
  exact folded _

theorem wordIds_foldl_safeErase (fileIds : List FileId) (index : InvertedIndex) :
    (fileIds.foldl InvertedIndex.safeEraseFileInternal index).wordIds = index.wordIds := by
  induction fileIds generalizing index with
  | nil => rfl
  | cons fileId rest ih =>
      rw [List.foldl_cons, ih]
      exact (InvertedIndex.PostingsInvariant.wordIds_safeErase index fileId).1

/-- The strand gives new words numbers, or renumbers the words that have postings. -/
theorem runStrand_wordIds {order : IterationOrder} (done : s.runStrand order = some next) :
    (∃ words, next.index.wordIds = s.index.wordIds.getIds words) ∨
      ∃ thresholdPercent, s.strand.head? = some (.compact thresholdPercent) ∧
        s.Renumbers thresholdPercent ∧ next.index = s.index.compacted s.index.rebuiltDictionary := by
  unfold System.runStrand at done
  cases front : s.strand with
  | nil =>
      rw [front] at done
      cases done
  | cons task rest =>
      rw [front] at done
      cases task with
      | upsert ticket path metadata =>
          obtain rfl := Option.some.inj done
          refine .inl ⟨[], ?_⟩
          simp only [System.runUpsert]
          split
          · dsimp only
            split
            · exact (InvertedIndex.PostingsInvariant.wordIds_safeErase _ _).1
            · rfl
          · rfl
      | softDelete ticket id path =>
          obtain ⟨flushed, flush, rfl⟩ := Option.map_eq_some_iff.mp done
          obtain ⟨db, _, rfl⟩ := flushPending_eq flush
          exact .inl ⟨[], rfl⟩
      | processBatch batch =>
          have numbered := passWords_wordIds s.index batch.fileId batch.list
          by_cases noWords : batch.list = []
          · simp only [System.runProcessBatch, noWords] at done
            obtain rfl := Option.some.inj done
            exact .inl ⟨[], rfl⟩
          · simp only [runProcessBatch_eq _ _ _ noWords] at done
            split at done
            · obtain ⟨flushed, flush, rfl⟩ := Option.map_eq_some_iff.mp done
              obtain ⟨db, _, rfl⟩ := flushPending_eq flush
              exact .inl ⟨_, numbered⟩
            · obtain rfl := Option.some.inj done
              exact .inl ⟨_, numbered⟩
      | compact thresholdPercent =>
          obtain rfl := Option.some.inj done
          simp only [System.runCompact]
          split
          · exact .inl ⟨[], rfl⟩
          · rename_i idle
            unfold InvertedIndex.compact
            split
            · rename_i runs
              exact .inr ⟨thresholdPercent, rfl, ⟨Bool.eq_false_iff.mpr idle, runs⟩, rfl⟩
            · exact .inl ⟨[], rfl⟩

/-! ## Tasks of the CPU pool -/

/-- What a finished indexing task leaves behind. -/
theorem runIndexing_cases {position : Nat} {content : Option (List Byte)}
    {list : List (Word × UInt32)} (done : s.runIndexing oem position content list = some next) :
    ∃ task, s.indexing[position]? = some task ∧
      s.indexing.Perm (task :: s.indexing.eraseIdx position) ∧
      ((content = none ∧ next = { s with indexing := s.indexing.eraseIdx position }) ∨
        ∃ bytes, content = some bytes ∧ list.Perm (batchList oem bytes) ∧
          next = { s with
            indexing := s.indexing.eraseIdx position
            strand := s.strand ++ [.processBatch ⟨task.ticket, task.fileId, task.path, task.metadata,
              task.requireCatalogCommitBeforePublish, list⟩] }) := by
  unfold System.runIndexing at done
  cases found : s.indexing[position]? with
  | none => simp [found] at done
  | some task =>
      obtain ⟨bound, atPosition⟩ := List.getElem?_eq_some_iff.mp found
      have permuted : s.indexing.Perm (task :: s.indexing.eraseIdx position) :=
        atPosition ▸ (List.getElem_cons_eraseIdx_perm bound).symm
      refine ⟨task, rfl, permuted, ?_⟩
      cases content with
      | none => exact .inl ⟨rfl, by simpa [found] using done.symm⟩
      | some bytes =>
          simp only [found] at done
          split at done
          · rename_i listed
            exact .inr ⟨bytes, rfl, listed, (Option.some.inj done).symm⟩
          · cases done

/-- The words of a batch list are distinct tokens. -/
theorem words_of_perm_batchList {list : List (Word × UInt32)} {bytes : List Byte}
    (permuted : list.Perm (batchList oem bytes)) :
    (list.map Prod.fst).Nodup ∧ ∀ entry ∈ list, entry.1 ≠ [] := by
  constructor
  · exact (permuted.map Prod.fst).nodup_iff.mpr (nodup_batchList oem bytes)
  · intro entry member
    obtain ⟨counted, listed, rfl⟩ := List.mem_map.mp (permuted.mem_iff.mp member)
    exact token_of_mem_frequencies listed

theorem Coherent.runIndexing {position : Nat} {content : Option (List Byte)}
    {list : List (Word × UInt32)} (coherent : s.Coherent history)
    (done : s.runIndexing oem position content list = some next) :
    next.Coherent
      ((s.indexing[position]?.map fun task => observeIndexing history task content).getD history) := by
  obtain ⟨task, found, permuted, ⟨rfl, rfl⟩ | ⟨bytes, rfl, listed, rfl⟩⟩ := runIndexing_cases done
  · rw [found]
    have grounded : s.inFlight.Perm (task.fileId ::
        ({ s with indexing := s.indexing.eraseIdx position } : System).inFlight) :=
      (permuted.map IndexingTask.fileId).append_right _
    have released := coherent.release grounded ⟨rfl, rfl, rfl, rfl, rfl, fun _ member => member⟩
    refine Coherent.of_expected released ?_
    rfl
  · rw [found]
    have flights : (s.indexing.map IndexingTask.fileId ++ s.strand.filterMap StrandTask.batchFile).Perm
        ((s.indexing.eraseIdx position).map IndexingTask.fileId ++ (s.strand ++ [StrandTask.processBatch
          ⟨task.ticket, task.fileId, task.path, task.metadata,
            task.requireCatalogCommitBeforePublish, list⟩]).filterMap StrandTask.batchFile) := by
      rw [List.filterMap_append]
      refine ((permuted.map IndexingTask.fileId).append_right _).trans ?_
      simp only [List.map_cons, List.filterMap_cons, StrandTask.batchFile, List.filterMap_nil,
        List.cons_append, ← List.append_assoc]
      exact (List.perm_append_singleton _ _).symm
    have expected : (((some task).map fun task => observeIndexing history task (some bytes)).getD
        history).expected = history.expected := by
      simp only [Option.map_some, Option.getD_some, observeIndexing]
      split <;> rfl
    refine Coherent.of_expected ?_ expected
    exact {
      postings := coherent.postings.congr (.refl _) fun fileId => flights.symm.mem_iff
      single := flights.nodup_iff.mp coherent.single
      numbers := coherent.numbers
      flying := fun fileId member => coherent.flying fileId (flights.mem_iff.mpr member)
      queued := coherent.queued
      batches := by
        intro batch member
        rcases List.mem_append.mp member with old | new
        · exact coherent.batches batch old
        · rw [StrandTask.processBatch.inj (List.mem_singleton.mp new)]
          exact words_of_perm_batchList listed }

theorem Coherent.runCommit {position : Nat} (coherent : s.Coherent history)
    (done : s.runCommit position = some next) : next.Coherent history := by
  obtain ⟨groups, found, rfl⟩ := Option.map_eq_some_iff.mp done
  obtain ⟨bound, atPosition⟩ := List.getElem?_eq_some_iff.mp found
  have permuted : s.commits.Perm (groups :: s.commits.eraseIdx position) :=
    atPosition ▸ (List.getElem_cons_eraseIdx_perm bound).symm
  have tasks : s.pendingTasks.Perm (groups.tasks ++
      (s.commits.eraseIdx position).flatMap DictionaryChunks.ChunkMap.tasks) := by
    rw [← List.flatMap_cons]
    exact permuted.flatMap_right _
  exact { coherent with postings := (coherent.postings.congr tasks fun _ => Iff.rfl).commit }

/-! ## Requests -/

theorem prepareLegacyMutableState_of_flat {index : InvertedIndex} (flat : index.dictionary = []) :
    index.prepareLegacyMutableState = index := by
  rw [InvertedIndex.prepareLegacyMutableState, flat, List.isEmpty_nil, if_pos rfl]

theorem Coherent.enqueueFileUpdate {path : Path} {found : Option DocumentMetadata}
    (coherent : s.Coherent history) (done : s.enqueueFileUpdate path found = some next) :
    next.Coherent history := by
  unfold System.enqueueFileUpdate at done
  rw [prepareLegacyMutableState_of_flat coherent.postings.flat] at done
  split at done
  · cases done
  cases found with
  | none =>
      obtain rfl := Option.some.inj done
      exact coherent
  | some metadata =>
      obtain rfl := Option.some.inj done
      exact coherent.post rfl _

theorem Coherent.enqueueFileDeletion {path : Path} (coherent : s.Coherent history)
    (done : s.enqueueFileDeletion path = some next) : next.Coherent history := by
  unfold System.enqueueFileDeletion at done
  split at done
  · cases done
  split at done
  · obtain rfl := Option.some.inj done
    exact coherent
  · obtain rfl := Option.some.inj done
    exact coherent.post rfl _

/-- What a full update leaves behind when it starts: the scanned catalog, or also
the erased documents, the deletion marks and the indexing tasks. -/
theorem updateDocumentBase_cases {paths : List Path} {stat : Stat}
    (done : s.updateDocumentBase paths stat = some next) :
    s.updating = false ∧ s.Idle ∧
      (next = { s with
          index := s.index.prepareLegacyMutableState
          catalog := (s.catalog.scan s.db stat paths).1 } ∨
        ∃ diff, (s.catalog.scan s.db stat paths).2 = some diff ∧ next = { s with
          index := (diff.updated.map CatalogScanItem.id).foldl InvertedIndex.safeEraseFileInternal
            s.index.prepareLegacyMutableState
          catalog := diff.removed.foldl DocumentCatalog.markRemoved (s.catalog.scan s.db stat paths).1
          queue := s.queue ++ diff.removed.map .markDeleted
          indexing := (diff.added ++ diff.updated).map (scanTask paths)
          updating := true }) := by
  unfold System.updateDocumentBase at done
  split at done
  · cases done
  rename_i ready
  have idle : s.updating = false ∧ s.Idle := by simpa using ready
  refine ⟨idle.1, idle.2, ?_⟩
  cases scanned : (s.catalog.scan s.db stat paths).2 with
  | none =>
      simp only [scanned] at done
      exact .inl (Option.some.inj done).symm
  | some diff =>
      simp only [scanned] at done
      split at done
      · exact .inl (Option.some.inj done).symm
      · exact .inr ⟨diff, rfl, (Option.some.inj done).symm⟩

theorem Idle.inFlight_eq (idle : s.Idle) : s.inFlight = [] := by
  rw [inFlight, idle.1, idle.2.1]
  rfl

theorem Idle.pendingTasks_eq (idle : s.Idle) : s.pendingTasks = [] := by
  rw [pendingTasks, idle.2.2, List.flatMap_nil]

theorem Coherent.updateDocumentBase {paths : List Path} {stat : Stat} (coherent : s.Coherent history)
    (distinct : paths.Nodup) (done : s.updateDocumentBase paths stat = some next) :
    next.Coherent history := by
  obtain ⟨numbers, above, fresh⟩ := coherent.numbers.scan stat distinct
  obtain ⟨_, idle, outcome⟩ := updateDocumentBase_cases done
  have grounded := idle.inFlight_eq
  have noTasks := idle.pendingTasks_eq
  have sameIndex := prepareLegacyMutableState_of_flat coherent.postings.flat
  have queued : ∀ file, LiveMirrorOp.write file ∈ s.queue →
      file.fileId < (s.catalog.scan s.db stat paths).1.nextId :=
    fun file member => (coherent.queued file member).trans_le above
  have scanned : ({ s with catalog := (s.catalog.scan s.db stat paths).1 } : System).Coherent history :=
    { coherent with
      postings := coherent.postings.mono above
      numbers := numbers
      flying := fun fileId member => (coherent.flying fileId member).trans_le above
      queued := queued }
  rw [sameIndex] at outcome
  rcases outcome with rfl | ⟨diff, found, rfl⟩
  · exact scanned
  obtain ⟨distinctIds, new, below⟩ := fresh diff found
  have postings := coherent.postings
  rw [noTasks, grounded] at postings
  have erased := postings.eraseAll (diff.updated.map CatalogScanItem.id)
  have addedNew : ∀ fileId ∈ diff.added.map CatalogScanItem.id, s.catalog.nextId ≤ fileId := by
    intro fileId member
    obtain ⟨item, listed, rfl⟩ := List.mem_map.mp member
    exact new item listed
  have dispatched := (erased.claimAll _ addedNew).mono above
  -- the strand is idle, so the documents in flight are those of the dispatched tasks
  have flights : ∀ tasks : List IndexingTask, tasks.map IndexingTask.fileId ++
      s.strand.filterMap StrandTask.batchFile = tasks.map IndexingTask.fileId := by
    intro tasks
    rw [idle.1, List.filterMap_nil, List.append_nil]
  have taskIds : ((diff.added ++ diff.updated).map (scanTask paths)).map IndexingTask.fileId =
      (diff.added ++ diff.updated).map CatalogScanItem.id := by
    rw [List.map_map]
    rfl
  obtain ⟨markedNumbers, sameNext⟩ := numbers.foldl_markRemoved diff.removed
  have marked := (scanned.markRemoved diff.removed).queueMarks diff.removed
  constructor
  case postings =>
    have listed : ∀ fileId, fileId ∈ (diff.added ++ diff.updated).map CatalogScanItem.id ↔
        (fileId ∈ ([] : List FileId) ∨ fileId ∈ diff.updated.map CatalogScanItem.id) ∨
          fileId ∈ diff.added.map CatalogScanItem.id := by
      intro fileId
      simp only [List.map_append, List.mem_append, List.not_mem_nil, false_or, or_comm]
    rw [inFlight, flights, taskIds, pendingTasks, idle.2.2, List.flatMap_nil, sameNext]
    exact dispatched.congr (.refl _) listed
  case single =>
    rw [inFlight, flights, taskIds]
    exact distinctIds
  case numbers => exact markedNumbers
  case flying =>
    rw [inFlight, flights, taskIds, sameNext]
    intro fileId member
    obtain ⟨item, listed, rfl⟩ := List.mem_map.mp member
    exact below item listed
  case queued => exact marked.queued
  case batches => exact coherent.batches

/-- Every tame step keeps the state coherent with the recorded history. -/
theorem Coherent.step {action : Action} (coherent : s.Coherent history) (tame : s.Tame action)
    (done : s.step oem action = some next) : next.Coherent (observe s action history) := by
  cases action with
  | enqueueFileUpdate path found => exact coherent.enqueueFileUpdate done
  | enqueueFileDeletion path => exact coherent.enqueueFileDeletion done
  | compact thresholdPercent =>
      obtain rfl := Option.some.inj done
      exact coherent.post rfl _
  | updateDocumentBase paths stat => exact coherent.updateDocumentBase tame done
  | finishUpdate order =>
      simp only [System.step, System.finishUpdate] at done
      split at done
      · obtain ⟨flushed, flush, rfl⟩ := Option.map_eq_some_iff.mp done
        exact { coherent.flushPending flush with }
      · cases done
  | runStrand order => exact coherent.runStrand tame done
  | runIndexing position content list => exact coherent.runIndexing done
  | runCommit position => exact coherent.runCommit done
  | writeQueue order => exact coherent.flushPending done

/-- Apart from the strand no action numbers a word. -/
theorem step_wordIds {action : Action} (flat : s.index.dictionary = [])
    (done : s.step oem action = some next) :
    next.index.wordIds = s.index.wordIds ∨
      ∃ order, action = .runStrand order ∧ s.runStrand order = some next := by
  have sameIndex := prepareLegacyMutableState_of_flat flat
  cases action with
  | enqueueFileUpdate path found =>
      simp only [System.step, System.enqueueFileUpdate, sameIndex] at done
      split at done
      · cases done
      cases found <;> exact .inl (by rw [← Option.some.inj done])
  | enqueueFileDeletion path =>
      simp only [System.step, System.enqueueFileDeletion] at done
      split at done
      · cases done
      split at done <;> exact .inl (by rw [← Option.some.inj done])
  | compact thresholdPercent =>
      obtain rfl := Option.some.inj done
      exact .inl rfl
  | updateDocumentBase paths stat =>
      obtain ⟨_, _, rfl | ⟨diff, _, rfl⟩⟩ := updateDocumentBase_cases done
      · exact .inl (congrArg InvertedIndex.wordIds sameIndex)
      · rw [sameIndex]
        exact .inl (wordIds_foldl_safeErase _ s.index)
  | finishUpdate order =>
      simp only [System.step, System.finishUpdate] at done
      split at done
      · obtain ⟨flushed, flush, rfl⟩ := Option.map_eq_some_iff.mp done
        obtain ⟨db, _, rfl⟩ := flushPending_eq flush
        exact .inl rfl
      · cases done
  | runStrand order => exact .inr ⟨order, rfl, done⟩
  | runIndexing position content list =>
      obtain ⟨task, _, _, ⟨_, rfl⟩ | ⟨bytes, _, _, rfl⟩⟩ := runIndexing_cases done <;> exact .inl rfl
  | runCommit position =>
      obtain ⟨groups, _, rfl⟩ := Option.map_eq_some_iff.mp done
      exact .inl rfl
  | writeQueue order =>
      obtain ⟨db, _, rfl⟩ := flushPending_eq done
      exact .inl rfl

/-- Tame steps keep a bijective word table bijective. -/
theorem Coherent.bijective_step {action : Action} (coherent : s.Coherent history)
    (tame : s.Tame action) (bijective : s.index.wordIds.Bijective)
    (done : s.step oem action = some next) : next.index.wordIds.Bijective := by
  rcases step_wordIds coherent.postings.flat done with same | ⟨order, rfl, ran⟩
  · rw [same]
    exact bijective
  · rcases runStrand_wordIds ran with ⟨words, numbered⟩ | ⟨threshold, front, renumbers, compacted⟩
    · rw [numbered]
      exact bijective.getIds words
    · have noCommits : s.commits = [] := tame _ front renumbers
      have postings := coherent.postings
      rw [pendingTasks, noCommits, List.flatMap_nil] at postings
      rw [compacted]
      exact InvertedIndex.bijective_compacted postings.keptResolve

/-! ## The started index -/

theorem nextId_openCatalog (storage : CatalogStorage) (db : Database) :
    (openCatalog storage db).nextId = db.nextDocId := by
  cases storage with
  | memory => simp [openCatalog, DocumentCatalog.nextId, DocPaths.nextId, DocPaths.rebuildFromRows]
  | sqlite => rfl

theorem numbersBelow_openCatalog (storage : CatalogStorage) (db : Database) :
    (openCatalog storage db).NumbersBelow db := by
  cases storage with
  | memory => exact DocPaths.wellFormed_rebuildFromRows db
  | sqlite => exact ⟨by simp [SQLiteCatalog.opened], fun _ _ => SortedMap.lt_nextKey_of_find?⟩

/-- An index started on a database whose postings resolve is coherent with what it loaded. -/
theorem coherent_start {storage : CatalogStorage} {db : Database} {precountPostings : Bool}
    (resolves : db.PostingsResolve) (started : start storage db precountPostings = some s) :
    s.Coherent s.loadedHistory := by
  obtain ⟨index, loaded, rfl⟩ := Option.map_eq_some_iff.mp started
  obtain ⟨wordIds, flat, wordRefs⟩ := Database.load_fields loaded
  have accepted := (Database.schemaAccepted_iff db).mp (Database.schemaAccepted_of_load loaded)
  have cell : ∀ wordId fileId, index.drained [] wordId fileId =
      if wordId < db.wordCount then db.posting wordId fileId else none :=
    Database.find?_postingList_load loaded
  constructor
  case postings =>
    constructor
    case flat => exact flat
    case referenced =>
      intro fileId wordId
      rw [InvertedIndex.refsOf, wordRefs, Database.mem_loadedRefs, pendingTasks, List.flatMap_nil, cell]
      split <;> simp_all
    case located =>
      intro fileId wordId present
      rw [pendingTasks, List.flatMap_nil, cell] at present
      split at present
      · obtain ⟨row, found⟩ := Option.isSome_iff_exists.mp (accepted.2 wordId fileId present)
        obtain ⟨word, token, first⟩ := resolves wordId fileId present
        refine ⟨?_, word, ?_⟩
        · rw [nextId_openCatalog]
          exact SortedMap.lt_nextKey_of_find? found
        · rw [wordIds]
          exact (Database.tryGet_wordList_iff token wordId).mpr first
      · cases present
    case erased => exact fun fileId isBusy => by cases isBusy
    case stored =>
      intro fileId _ word
      exact (InvertedIndex.answer_eq_drainedAnswer flat word fileId).symm
  case single => exact List.nodup_nil
  case numbers => exact numbersBelow_openCatalog storage db
  case flying => exact fun fileId isBusy => by cases isBusy
  case queued => exact fun file queued => by cases queued
  case batches => exact fun batch posted => by cases posted

/-- A tame schedule keeps a started index coherent. -/
theorem Coherent.run {actions : List Action} {final : System × History}
    (coherent : s.Coherent history)
    (tame : (monitored oem).Conforms (fun state action => state.1.Tame action) (s, history) actions)
    (done : (monitored oem).run (s, history) actions = some final) : final.1.Coherent final.2 := by
  have kept : ∀ (state : System × History) action after, state.1.Coherent state.2 →
      state.1.Tame action → (monitored oem).step state action = some after →
        after.1.Coherent after.2 := by
    rintro ⟨before, recorded⟩ action after known allowed taken
    obtain ⟨reached, stepped, rfl⟩ := Option.map_eq_some_iff.mp taken
    exact known.step allowed stepped
  exact Machine.invariant_run kept coherent tame done

/-! ## A new index -/

/-- An index started on a new database. -/
def emptyStart : System := (start .sqlite .empty true).get (by decide)

theorem started_emptyStart : start .sqlite .empty true = some emptyStart := (Option.some_get _).symm

theorem postingsResolve_empty : Database.empty.PostingsResolve :=
  fun _ _ present => by cases present

/-- A point update from its event to the commit of its postings. `list` is the order in which
the map of the counts is walked. -/
def listedUpdate (path : Path) (metadata : DocumentMetadata) (content : List Byte) (list : List (Word × UInt32)) :
    List Action :=
  [.enqueueFileUpdate path (some metadata), .runStrand .increasing, .runIndexing 0 (some content) list,
    .runStrand .increasing, .runCommit 0]

/-- A point update whose words are walked in their order. -/
def pointUpdate (path : Path) (metadata : DocumentMetadata) (content : List Byte) : List Action :=
  [.enqueueFileUpdate path (some metadata), .runStrand .increasing,
    .runIndexing 0 (some content) (batchList .plain content), .runStrand .increasing, .runCommit 0]

/-- The words of a file in the order of the hash map, which is not that of the text. -/
def evaThenAnna : List (Word × UInt32) := [(Word.ofAscii "EVA", 1), (Word.ofAscii "ANNA", 1)]

end System

end SearchEngine.Index
