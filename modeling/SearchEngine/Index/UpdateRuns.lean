import SearchEngine.Index.MirrorRuns

/-!
# A full update run to its end

A full update scans the listed files, erases the changed ones and posts a task for
every file the catalog reports. The tasks, their batches and their commits run in
any interleaving with compactions and with the writer; point events wait until the
update has ended. `Underway` is the invariant of such a run: a dispatched file is
either in flight and has no postings, or it has the counts of its content, and its
row is written exactly if it has words.
-/

namespace SearchEngine.Index

open SearchEngine.Lib

/-- The counts a document has after a read with this outcome. -/
def indexedCounts (oem : OemTable) (content : Option (List Byte)) (word : Word) : Option UInt16 :=
  content.bind fun bytes => InvertedIndex.batchCounts (batchList oem bytes) word

/-- The read gives words, so that a batch is written. -/
def Indexed (oem : OemTable) (content : Option (List Byte)) : Bool :=
  content.any fun bytes => !(batchList oem bytes).isEmpty

theorem batchCounts_perm {left right : List (Word × UInt32)} (permuted : left.Perm right)
    (distinct : (left.map Prod.fst).Nodup) :
    InvertedIndex.batchCounts left = InvertedIndex.batchCounts right := by
  funext word
  have otherDistinct : (right.map Prod.fst).Nodup := (permuted.map Prod.fst).nodup_iff.mp distinct
  unfold InvertedIndex.batchCounts
  congr 1
  apply Option.ext
  intro count
  rw [SortedMap.findEntry_eq_some_iff distinct, SortedMap.findEntry_eq_some_iff otherDistinct,
    permuted.mem_iff]

namespace IndexingTask

/-- The batch that `fileIndexing` posts for its task. -/
def batch (task : IndexingTask) (list : List (Word × UInt32)) : PostingBatch :=
  ⟨task.ticket, task.fileId, task.path, task.metadata, task.requireCatalogCommitBeforePublish, list⟩

/-- The row a written batch of the task leaves. -/
def row (task : IndexingTask) : DocRow :=
  ⟨task.path, task.metadata.mtimeTicks, task.metadata.size, false⟩

end IndexingTask

namespace System

variable {oem : OemTable} {s next : System} {history : History} {contents : Path → Option (List Byte)}

/-- An action of the executors while an update runs; a task reads what its file holds. -/
def FollowsUpdate (contents : Path → Option (List Byte)) (s : System) : Action → Prop
  | .finishUpdate _ => False
  | .runIndexing position content _ => ∀ task ∈ s.indexing[position]?, content = contents task.path
  | _ => True

instance (s : System) (action : Action) : Decidable (FollowsUpdate contents s action) :=
  match action with
  | .finishUpdate _ => isFalse not_false
  | .runIndexing position content _ =>
      inferInstanceAs (Decidable (∀ task ∈ s.indexing[position]?, content = contents task.path))
  | .enqueueFileUpdate _ _ | .enqueueFileDeletion _ | .compact _ | .updateDocumentBase _ _
  | .runStrand _ | .runCommit _ | .writeQueue _ => isTrue trivial

/-- A strand task of an update: a compaction, or the batch of a dispatched file. -/
def Dispatched (oem : OemTable) (contents : Path → Option (List Byte)) (tasks : List IndexingTask)
    (posted : StrandTask) : Prop :=
  (∃ thresholdPercent, posted = .compact thresholdPercent) ∨
    ∃ task ∈ tasks, ∃ bytes list, contents task.path = some bytes ∧ list.Perm (batchList oem bytes) ∧
      posted = .processBatch (task.batch list)

/-- Where an update that dispatched `tasks` stands. `answers` and `rows` are the counts
and rows of its start. -/
structure Underway (oem : OemTable) (contents : Path → Option (List Byte)) (tasks : List IndexingTask)
    (answers : FileId → Word → Option UInt16) (rows : FileId → Option DocRow)
    (catalog : DocumentCatalog) (s : System) (history : History) : Prop where
  coherent : s.Coherent history
  updating : s.updating = true
  catalog : s.catalog = catalog
  indexing : ∀ task ∈ s.indexing, task ∈ tasks
  strand : ∀ posted ∈ s.strand, Dispatched oem contents tasks posted
  waiting : ∀ fileId ∈ s.inFlight, (s.mirrorRecords fileId).row = rows fileId
  finished : ∀ task ∈ tasks, task.fileId ∉ s.inFlight →
    history.expected task.fileId = indexedCounts oem (contents task.path) ∧
      (s.mirrorRecords task.fileId).row =
        if Indexed oem (contents task.path) then some task.row else rows task.fileId
  others : ∀ fileId, fileId ∉ tasks.map IndexingTask.fileId →
    history.expected fileId = answers fileId ∧ (s.mirrorRecords fileId).row = rows fileId

variable {tasks : List IndexingTask} {answers : FileId → Word → Option UInt16}
  {rows : FileId → Option DocRow} {catalog : DocumentCatalog}

/-- A step that leaves the files in flight, the promised rows and the counts alone. -/
theorem Underway.frame (underway : Underway oem contents tasks answers rows catalog s history)
    {other : History} (coherent : next.Coherent other) (expected : other.expected = history.expected)
    (updating : next.updating = s.updating) (sameCatalog : next.catalog = s.catalog)
    (indexing : ∀ posted ∈ next.indexing, posted ∈ s.indexing)
    (strand : ∀ posted ∈ next.strand, Dispatched oem contents tasks posted)
    (flights : ∀ fileId, fileId ∈ next.inFlight ↔ fileId ∈ s.inFlight)
    (records : next.mirrorRecords = s.mirrorRecords) :
    Underway oem contents tasks answers rows catalog next other := by
  constructor
  case coherent => exact coherent
  case updating => exact updating.trans underway.updating
  case catalog => exact sameCatalog.trans underway.catalog
  case indexing => exact fun posted member => underway.indexing posted (indexing posted member)
  case strand => exact strand
  case waiting =>
    intro fileId member
    rw [records]
    exact underway.waiting fileId ((flights fileId).mp member)
  case finished =>
    intro task member landed
    rw [expected, records]
    exact underway.finished task member fun flies => landed ((flights task.fileId).mpr flies)
  case others =>
    rw [expected, records]
    exact underway.others

theorem mirrorRecords_flush {order : IterationOrder} (flushed : s.flushPending order = some next) :
    next.mirrorRecords = s.mirrorRecords := by
  obtain ⟨db, written, rfl⟩ := flushPending_eq flushed
  exact (Database.writeBatch_spec written).1

/-- The batch of a task writes the row of the task. -/
theorem row_batchWrite (records : FileId → Database.DocRecord) (task : IndexingTask)
    (list : List (Word × UInt32)) (pass : InvertedIndex.BatchPass) (fileId : FileId) :
    (mirrorRules.applyOp records (batchWrite (task.batch list) pass) fileId).row =
      if fileId = task.fileId then some task.row else (records fileId).row := by
  rw [batchWrite, applyOp_write]
  split
  · rename_i same
    exact (if_pos same).symm
  · rename_i different
    exact (if_neg different).symm

/-- A file leaves the flight with its counts, and with its row if it has words. -/
theorem Underway.land (underway : Underway oem contents tasks answers rows catalog s history)
    (distinct : (tasks.map IndexingTask.fileId).Nodup) {task : IndexingTask} (listed : task ∈ tasks)
    {other : History} (coherent : next.Coherent other) (updating : next.updating = s.updating)
    (sameCatalog : next.catalog = s.catalog) (indexing : ∀ posted ∈ next.indexing, posted ∈ s.indexing)
    (strand : ∀ posted ∈ next.strand, posted ∈ s.strand)
    (flights : s.inFlight.Perm (task.fileId :: next.inFlight))
    (expected : other.expected =
      Function.update history.expected task.fileId (indexedCounts oem (contents task.path)))
    (records : ∀ fileId, (next.mirrorRecords fileId).row =
      if fileId = task.fileId ∧ Indexed oem (contents task.path) = true then some task.row
      else (s.mirrorRecords fileId).row) :
    Underway oem contents tasks answers rows catalog next other := by
  have single := underway.coherent.single
  have grounded : ∀ fileId, fileId ∈ next.inFlight ↔ fileId ∈ s.inFlight ∧ fileId ≠ task.fileId :=
    fun fileId => mem_iff_of_perm_cons flights single fileId
  have flew : task.fileId ∈ s.inFlight := flights.mem_iff.mpr List.mem_cons_self
  have elsewhere : ∀ fileId, fileId ≠ task.fileId →
      (next.mirrorRecords fileId).row = (s.mirrorRecords fileId).row := by
    intro fileId different
    rw [records, if_neg (fun same => different same.1)]
  constructor
  case coherent => exact coherent
  case updating => exact updating.trans underway.updating
  case catalog => exact sameCatalog.trans underway.catalog
  case indexing => exact fun posted member => underway.indexing posted (indexing posted member)
  case strand => exact fun posted member => underway.strand posted (strand posted member)
  case waiting =>
    intro fileId member
    obtain ⟨flies, different⟩ := (grounded fileId).mp member
    rw [elsewhere fileId different]
    exact underway.waiting fileId flies
  case finished =>
    intro finished member landed
    by_cases same : finished.fileId = task.fileId
    · obtain rfl : finished = task := List.inj_on_of_nodup_map distinct member listed same
      constructor
      · rw [expected, Function.update_self]
      · rw [records]
        by_cases words : Indexed oem (contents finished.path) = true
        · rw [if_pos ⟨rfl, words⟩, if_pos words]
        · rw [if_neg (fun both => words both.2), if_neg words]
          exact underway.waiting finished.fileId flew
    · have landedBefore : finished.fileId ∉ s.inFlight :=
        fun flies => landed ((grounded finished.fileId).mpr ⟨flies, same⟩)
      rw [expected, Function.update_of_ne same, elsewhere finished.fileId same]
      exact underway.finished finished member landedBefore
  case others =>
    intro fileId absent
    have different : fileId ≠ task.fileId := by
      rintro rfl
      exact absent (List.mem_map_of_mem listed)
    rw [expected, Function.update_of_ne different, elsewhere fileId different]
    exact underway.others fileId absent

/-- A read that fails lands its file; any other posts the batch of the file. -/
theorem Underway.runIndexing (underway : Underway oem contents tasks answers rows catalog s history)
    (distinct : (tasks.map IndexingTask.fileId).Nodup) {position : Nat} {content : Option (List Byte)}
    {list : List (Word × UInt32)}
    (reads : ∀ task ∈ s.indexing[position]?, content = contents task.path)
    (done : s.runIndexing oem position content list = some next) :
    Underway oem contents tasks answers rows catalog next
      ((s.indexing[position]?.map fun task => observeIndexing history task content).getD history) := by
  have coherent := underway.coherent.runIndexing done
  obtain ⟨task, found, permuted, outcome⟩ := runIndexing_cases done
  have read := reads task found
  have listed := underway.indexing task (List.mem_of_getElem? found)
  have kept : ∀ posted ∈ s.indexing.eraseIdx position, posted ∈ s.indexing :=
    fun posted member => List.mem_of_mem_eraseIdx member
  rw [found] at coherent ⊢
  rcases outcome with ⟨rfl, rfl⟩ | ⟨bytes, rfl, counted, rfl⟩
  · apply underway.land distinct listed coherent rfl rfl kept (fun _ member => member)
    · exact (permuted.map IndexingTask.fileId).append_right _
    · rw [← read]
      rfl
    · intro fileId
      rw [← read, if_neg (by simp [Indexed])]
      rfl
  · have expected : (((some task).map fun task => observeIndexing history task (some bytes)).getD
        history).expected = history.expected := by
      simp only [Option.map_some, Option.getD_some, observeIndexing]
      split <;> rfl
    apply underway.frame coherent expected rfl rfl kept
    · intro posted member
      rcases List.mem_append.mp member with old | new
      · exact underway.strand posted old
      · exact .inr ⟨task, listed, bytes, list, read.symm, counted, List.mem_singleton.mp new⟩
    · intro fileId
      simp only [inFlight, List.filterMap_append, List.mem_append,
        ((permuted.map IndexingTask.fileId).mem_iff (a := fileId)), List.map_cons, List.mem_cons]
      simp only [List.filterMap_cons, StrandTask.batchFile, List.filterMap_nil, List.mem_singleton]
      tauto
    · rfl

/-- A batch that runs lands its file. -/
theorem Underway.runBatch (underway : Underway oem contents tasks answers rows catalog s history)
    (distinct : (tasks.map IndexingTask.fileId).Nodup)
    (direct : ∀ task ∈ tasks, task.requireCatalogCommitBeforePublish = false) {order : IterationOrder}
    {task : IndexingTask} (listed : task ∈ tasks) {bytes : List Byte} {list : List (Word × UInt32)}
    (read : contents task.path = some bytes) (counted : list.Perm (batchList oem bytes))
    {rest : List StrandTask} (front : s.strand = .processBatch (task.batch list) :: rest)
    (done : ({ s with strand := rest } : System).runProcessBatch order (task.batch list) = some next) :
    Underway oem contents tasks answers rows catalog next
      (observeStrand s history (.processBatch (task.batch list))) := by
  have coherent := underway.coherent.runProcessBatch front done
  have flights : s.inFlight.Perm (task.fileId :: ({ s with strand := rest } : System).inFlight) := by
    simp [inFlight, front, StrandTask.batchFile, IndexingTask.batch]
  have expected : (observeStrand s history (.processBatch (task.batch list))).expected =
      Function.update history.expected task.fileId (indexedCounts oem (contents task.path)) := by
    have counts := batchCounts_perm counted ((words_of_perm_batchList counted).1)
    rw [read]
    exact congrArg (Function.update history.expected task.fileId) counts
  have kept : ∀ posted ∈ rest, posted ∈ s.strand := fun posted member => front ▸ List.mem_cons_of_mem _ member
  by_cases noWords : list = []
  · have empty : batchList oem bytes = [] := (noWords ▸ counted).nil_eq.symm
    rw [System.runProcessBatch, IndexingTask.batch, noWords, List.isEmpty_nil, if_pos rfl] at done
    obtain rfl := Option.some.inj done
    apply underway.land distinct listed coherent rfl rfl (fun _ member => member) kept flights expected
    intro fileId
    rw [if_neg (by simp [read, Indexed, empty])]
    rfl
  · have words : Indexed oem (contents task.path) = true := by
      have filled : batchList oem bytes ≠ [] := fun empty => noWords (counted.trans (empty ▸ .refl _)).eq_nil
      simpa [read, Indexed] using filled
    have unflushed : (task.batch list).requireCatalogCommitBeforePublish = false := direct task listed
    rw [runProcessBatch_eq _ _ _ noWords, unflushed, if_neg Bool.false_ne_true] at done
    obtain rfl := Option.some.inj done
    apply underway.land distinct listed coherent rfl rfl (fun _ member => member) kept flights expected
    intro fileId
    have queued : (({ s with strand := rest } : System).staged (task.batch list)).mirrorRecords =
        mirrorRules.applyAll s.mirrorRecords
          [batchWrite (task.batch list) (s.index.passWords task.fileId list)] :=
      mirrorRecords_enqueue s _
    rw [queued, Coalescing.applyAll, List.foldl_cons, List.foldl_nil, row_batchWrite]
    by_cases same : fileId = task.fileId
    · rw [if_pos same, if_pos ⟨same, words⟩]
    · rw [if_neg same, if_neg (fun both => same both.1)]

theorem Underway.runStrand (underway : Underway oem contents tasks answers rows catalog s history)
    (distinct : (tasks.map IndexingTask.fileId).Nodup)
    (direct : ∀ task ∈ tasks, task.requireCatalogCommitBeforePublish = false) {order : IterationOrder}
    (done : s.runStrand order = some next) :
    Underway oem contents tasks answers rows catalog next
      ((s.strand.head?.map (observeStrand s history)).getD history) := by
  unfold System.runStrand at done
  cases front : s.strand with
  | nil =>
      rw [front] at done
      cases done
  | cons posted rest =>
      rw [front] at done
      have kept : ∀ other ∈ rest, Dispatched oem contents tasks other :=
        fun other member => underway.strand other (front ▸ List.mem_cons_of_mem _ member)
      rcases underway.strand posted (front ▸ List.mem_cons_self) with
        ⟨thresholdPercent, rfl⟩ | ⟨task, listed, bytes, list, read, counted, rfl⟩
      · -- a compaction that comes up while the update runs is skipped
        have skipped : next = { s with strand := rest } := by
          have running : ({ s with strand := rest } : System).updating = true := underway.updating
          rw [← Option.some.inj done, runCompact, if_pos running]
        subst skipped
        have shorter : ({ s with strand := rest } : System).Coherent history :=
          underway.coherent.dropTask front rfl
        exact underway.frame shorter rfl rfl rfl (fun _ member => member) kept
          (fun fileId => by rw [inFlight_of_strand front rfl]) rfl
      · exact underway.runBatch distinct direct listed read counted front done

/-- Every step of the executors keeps the invariant of the update. -/
theorem Underway.step (underway : Underway oem contents tasks answers rows catalog s history)
    (distinct : (tasks.map IndexingTask.fileId).Nodup)
    (direct : ∀ task ∈ tasks, task.requireCatalogCommitBeforePublish = false) {action : Action}
    (follows : FollowsUpdate contents s action) (done : s.step oem action = some next) :
    Underway oem contents tasks answers rows catalog next (observe s action history) := by
  have running := underway.updating
  cases action with
  | enqueueFileUpdate path found => simp [System.step, System.enqueueFileUpdate, running] at done
  | enqueueFileDeletion path => simp [System.step, System.enqueueFileDeletion, running] at done
  | compact thresholdPercent =>
      have tame : s.Tame (.compact thresholdPercent) := trivial
      have coherent := underway.coherent.step tame done
      obtain rfl := Option.some.inj done
      apply underway.frame coherent rfl rfl rfl (fun _ member => member)
      · intro posted member
        rcases List.mem_append.mp member with old | new
        · exact underway.strand posted old
        · exact .inl ⟨thresholdPercent, List.mem_singleton.mp new⟩
      · intro fileId
        simp [inFlight, StrandTask.batchFile]
      · rfl
  | updateDocumentBase paths stat => simp [System.step, System.updateDocumentBase, running] at done
  | finishUpdate order => exact follows.elim
  | runStrand order => exact underway.runStrand distinct direct done
  | runIndexing position content list => exact underway.runIndexing distinct follows done
  | runCommit position =>
      have coherent := underway.coherent.runCommit done
      obtain ⟨groups, _, rfl⟩ := Option.map_eq_some_iff.mp done
      exact underway.frame coherent rfl rfl rfl (fun _ member => member) underway.strand
        (fun _ => .rfl) rfl
  | writeQueue order =>
      have coherent := underway.coherent.flushPending done
      have records := mirrorRecords_flush done
      obtain ⟨db, _, rfl⟩ := flushPending_eq done
      exact underway.frame coherent rfl rfl rfl (fun _ member => member) underway.strand
        (fun _ => .rfl) records

/-- A full update from the scan to its end: its tasks run under some schedule until the
executors are idle, then the writer is flushed. -/
structure UpdateRun (oem : OemTable) (contents : Path → Option (List Byte)) (listed : List Path)
    (stat : Stat) (s dispatched complete final : System) (schedule : List Action)
    (order : IterationOrder) : Prop where
  dispatches : s.updateDocumentBase listed stat = some dispatched
  reported : dispatched.updating = true
  follows : (machine oem).Conforms (FollowsUpdate contents) dispatched schedule
  runs : (machine oem).run dispatched schedule = some complete
  idle : complete.Idle
  finishes : complete.finishUpdate order = some final

variable {listed : List Path} {stat : Stat} {dispatched complete final : System}
  {schedule : List Action} {order : IterationOrder} {diff : CatalogDiff}

/-- The tasks of an update that reported this difference. -/
def updateTasks (listed : List Path) (diff : CatalogDiff) : List IndexingTask :=
  (diff.added ++ diff.updated).map (scanTask listed)

theorem map_fileId_updateTasks (listed : List Path) (diff : CatalogDiff) :
    (updateTasks listed diff).map IndexingTask.fileId =
      (diff.added ++ diff.updated).map CatalogScanItem.id := by
  rw [updateTasks, List.map_map]
  rfl

/-- The invariant holds where the tasks are dispatched. -/
theorem underway_dispatched (coherent : s.Coherent history) (distinct : listed.Nodup)
    (scanned : (s.catalog.scan s.db stat listed).2 = some diff)
    (dispatches : s.updateDocumentBase listed stat = some dispatched)
    (reported : dispatched.updating = true) :
    Underway oem contents (updateTasks listed diff) (fun fileId word => s.index.answer word fileId)
        (fun fileId => (dispatched.mirrorRecords fileId).row) dispatched.catalog dispatched history ∧
      ((updateTasks listed diff).map IndexingTask.fileId).Nodup := by
  have after := coherent.updateDocumentBase distinct dispatches
  obtain ⟨calm, idle, outcome⟩ := updateDocumentBase_cases dispatches
  have answers : history.expected = fun fileId word => s.index.answer word fileId := by
    funext fileId word
    have grounded : fileId ∉ s.inFlight := by simp [idle.inFlight_eq]
    rw [InvertedIndex.answer_eq_drainedAnswer coherent.postings.flat, ← idle.pendingTasks_eq]
    exact (coherent.postings.stored fileId grounded word).symm
  rcases outcome with rfl | ⟨found, foundDiff, rfl⟩
  · exact absurd (calm.symm.trans reported) Bool.false_ne_true
  obtain rfl : found = diff := Option.some.inj (foundDiff.symm.trans scanned)
  have flights := after.single
  rw [inFlight, idle.1, List.filterMap_nil, List.append_nil] at flights
  refine ⟨?_, flights⟩
  constructor
  case coherent => exact after
  case updating => rfl
  case catalog => rfl
  case indexing => exact fun _ member => member
  case strand =>
    intro posted member
    rw [idle.1] at member
    cases member
  case waiting => exact fun _ _ => rfl
  case finished =>
    intro task member landed
    exact absurd (List.mem_append_left _ (List.mem_map_of_mem member)) landed
  case others => exact fun fileId _ => ⟨congrFun answers fileId, rfl⟩

/-- The tasks of an update are not point updates. -/
theorem direct_updateTasks : ∀ task ∈ updateTasks listed diff,
    task.requireCatalogCommitBeforePublish = false := by
  intro task member
  obtain ⟨item, _, rfl⟩ := List.mem_map.mp member
  rfl

/-- What a full update leaves behind: every dispatched file has the counts of its content,
and its row if it has words; every other file is as the dispatch left it. -/
theorem UpdateRun.results (update : UpdateRun oem contents listed stat s dispatched complete final
      schedule order) (coherent : s.Coherent history) (distinct : listed.Nodup)
    (scanned : (s.catalog.scan s.db stat listed).2 = some diff) :
    (∀ task ∈ updateTasks listed diff,
        (∀ word, final.index.answer word task.fileId = indexedCounts oem (contents task.path) word) ∧
        final.db.docs.find? task.fileId = if Indexed oem (contents task.path) then some task.row
          else (dispatched.mirrorRecords task.fileId).row) ∧
      (∀ fileId, fileId ∉ (updateTasks listed diff).map IndexingTask.fileId →
        (∀ word, final.index.answer word fileId = s.index.answer word fileId) ∧
          final.db.docs.find? fileId = (dispatched.mirrorRecords fileId).row) ∧
      final.catalog = dispatched.catalog := by
  let invariant : System → Prop := fun state => ∃ after,
    Underway oem contents (updateTasks listed diff) (fun fileId word => s.index.answer word fileId)
      (fun fileId => (dispatched.mirrorRecords fileId).row) dispatched.catalog state after
  obtain ⟨start, single⟩ :=
    underway_dispatched coherent distinct scanned update.dispatches update.reported
  have initial : invariant dispatched := ⟨history, start⟩
  have kept : ∀ state action next, invariant state → FollowsUpdate contents state action →
      (machine oem).step state action = some next → invariant next := by
    rintro state action next ⟨recorded, underway⟩ allowed taken
    exact ⟨_, underway.step single direct_updateTasks allowed taken⟩
  obtain ⟨after, underway⟩ := Machine.invariant_run kept initial update.follows update.runs
  have grounded : ∀ fileId, fileId ∉ complete.inFlight := by simp [update.idle.inFlight_eq]
  have finishes := update.finishes
  rw [finishUpdate, if_pos underway.updating] at finishes
  obtain ⟨flushed, flush, rfl⟩ := Option.map_eq_some_iff.mp finishes
  obtain ⟨db, written, rfl⟩ := flushPending_eq flush
  have rows : ∀ fileId, db.docs.find? fileId = (complete.mirrorRecords fileId).row := fun fileId =>
    congrArg Database.DocRecord.row (congrFun (Database.writeBatch_spec written).1 fileId)
  have answers : ∀ fileId word, complete.index.answer word fileId = after.expected fileId word := by
    intro fileId word
    rw [InvertedIndex.answer_eq_drainedAnswer underway.coherent.postings.flat,
      ← update.idle.pendingTasks_eq]
    exact underway.coherent.postings.stored fileId (grounded fileId) word
  refine ⟨?_, ?_, underway.catalog⟩
  · intro task member
    obtain ⟨expected, row⟩ := underway.finished task member (grounded task.fileId)
    exact ⟨fun word => (answers task.fileId word).trans (congrFun expected word),
      (rows task.fileId).trans row⟩
  · intro fileId absent
    obtain ⟨expected, row⟩ := underway.others fileId absent
    exact ⟨fun word => (answers fileId word).trans (congrFun expected word), (rows fileId).trans row⟩

/-- A tame run reaches coherent states. -/
theorem coherent_of_run {storage : CatalogStorage} {db : Database} {precountPostings : Bool}
    {opened : System} {actions : List Action} (resolves : db.PostingsResolve)
    (started : start storage db precountPostings = some opened)
    (tame : (machine oem).Conforms Tame opened actions)
    (reached : (machine oem).run opened actions = some s) : ∃ history, s.Coherent history := by
  let invariant : System → Prop := fun state => ∃ history, state.Coherent history
  have initial : invariant opened := ⟨_, coherent_start resolves started⟩
  have kept : ∀ state action next, invariant state → Tame state action →
      (machine oem).step state action = some next → invariant next := by
    rintro state action next ⟨recorded, coherent⟩ allowed taken
    exact ⟨_, coherent.step allowed taken⟩
  exact Machine.invariant_run kept initial tame reached

/-- Under every schedule a completed update leaves each reported file with exactly the counts
of its content, none if it could not be read, and the answers of every other file alone. -/
theorem answers_of_update {storage : CatalogStorage} {db : Database} {precountPostings : Bool}
    {opened : System} {actions : List Action} (resolves : db.PostingsResolve)
    (started : start storage db precountPostings = some opened)
    (tame : (machine oem).Conforms Tame opened actions)
    (reached : (machine oem).run opened actions = some s) (distinct : listed.Nodup)
    (update : UpdateRun oem contents listed stat s dispatched complete final schedule order)
    (scanned : (s.catalog.scan s.db stat listed).2 = some diff) (word : Word) :
    (∀ item ∈ diff.added ++ diff.updated, final.index.answer word item.id =
        indexedCounts oem (contents (listed.getD item.pathIndex [])) word) ∧
      ∀ fileId, fileId ∉ (diff.added ++ diff.updated).map CatalogScanItem.id →
        final.index.answer word fileId = s.index.answer word fileId := by
  obtain ⟨history, coherent⟩ := coherent_of_run resolves started tame reached
  obtain ⟨indexed, others, -⟩ := update.results coherent distinct scanned
  constructor
  · intro item member
    exact (indexed (scanTask listed item) (List.mem_map_of_mem member)).1 word
  · intro fileId absent
    exact (others fileId (map_fileId_updateTasks listed diff ▸ absent)).1 word

/-! ## A readable and an unreadable file -/

/-- Only the first file can be opened. -/
def twoFiles (path : Path) : Option (List Byte) :=
  if path = "a".toList then some (Word.ofAscii "EVA EVA") else none

def twoPaths : List Path := ["a".toList, "b".toList]

def twoStats : Stat := fun _ => some ⟨1, 7⟩

/-- A compaction comes up while the update runs. -/
def twoFilesSchedule : List Action :=
  [.compact 0, .runIndexing 1 none [],
    .runIndexing 0 (some (Word.ofAscii "EVA EVA")) (batchList .plain (Word.ofAscii "EVA EVA")),
    .runStrand .increasing, .runStrand .increasing, .writeQueue .increasing, .runCommit 0]

def twoFilesDispatched : System :=
  (emptyStart.updateDocumentBase twoPaths twoStats).get (by decide +kernel)

def twoFilesComplete : System :=
  ((machine .plain).run twoFilesDispatched twoFilesSchedule).get (by decide +kernel)

def twoFilesFinal : System := (twoFilesComplete.finishUpdate .increasing).get (by decide +kernel)

theorem updateRun_twoFiles : UpdateRun .plain twoFiles twoPaths twoStats emptyStart twoFilesDispatched
    twoFilesComplete twoFilesFinal twoFilesSchedule .increasing where
  dispatches := (Option.some_get _).symm
  reported := by decide +kernel
  follows := by decide +kernel
  runs := (Option.some_get _).symm
  idle := by decide +kernel
  finishes := (Option.some_get _).symm

theorem answers_of_update_twoFiles :
    twoFilesFinal.index.answer (Word.ofAscii "EVA") 0 = some 2 ∧
      twoFilesFinal.index.answer (Word.ofAscii "EVA") 1 = none := by
  have scanned : (emptyStart.catalog.scan emptyStart.db twoStats twoPaths).2 =
      some ⟨[⟨0, 0, ⟨1, 7⟩⟩, ⟨1, 1, ⟨1, 7⟩⟩], [], []⟩ := by decide +kernel
  have tame : (machine .plain).Conforms Tame emptyStart [] := trivial
  obtain ⟨indexed, -⟩ := answers_of_update postingsResolve_empty started_emptyStart tame rfl
    (by decide) updateRun_twoFiles scanned (Word.ofAscii "EVA")
  have first : indexedCounts .plain (twoFiles "a".toList) (Word.ofAscii "EVA") = some 2 := by
    decide +kernel
  have second : indexedCounts .plain (twoFiles "b".toList) (Word.ofAscii "EVA") = none := by
    decide +kernel
  exact ⟨(indexed ⟨0, 0, ⟨1, 7⟩⟩ (by simp)).trans first, (indexed ⟨1, 1, ⟨1, 7⟩⟩ (by simp)).trans second⟩

end System

end SearchEngine.Index
