import SearchEngine.Batch.PipelineRuns

/-!
# Progress of the pipeline

A state in order is joined or some thread can move: a full lane belongs to an
indexer that can pop, and when no indexer is available every one of them has a
document in transit. The remaining work bounds the length of every run.
-/

namespace SearchEngine.Batch.Pipeline

open SearchEngine.Lib SearchEngine.Index

variable {builder : BatchIndexBuilder} {oem : OemTable} {files : List SourceFile}
  {s after : Pipeline builder} {h later : History builder}

/-! ## Some thread can move -/

namespace Orderly

/-- An indexer with something to handle can move. -/
theorem indexer_enabled (order : Orderly oem files s h) (worker : Fin builder.indexerThreads)
    (busy : s.transit worker ≠ []) :
    ∃ next, Pipeline.step oem files s (.indexer worker) = some next := by
  have alive : ¬ (s.indexers worker).exited = true :=
    fun ended => busy (order.exited worker ended).2
  simp only [Pipeline.step, indexerStep, if_neg alive]
  cases popped : (s.indexers worker).current with
  | some block => exact ⟨_, rfl⟩
  | none =>
      have filled : (s.lanes worker).items ≠ [] := by
        rw [transit, popped] at busy
        exact busy
      rcases BoundedByteQueue.pop_cases (order.running worker) with
        ⟨empty, _⟩ | ⟨empty, _⟩ | ⟨block, lane, took, _⟩
      · exact absurd empty filled
      · exact absurd empty filled
      · exact ⟨_, by rw [took]⟩

/-- A reader can move, is finished, waits for a worker or waits for its lane. -/
theorem reader_enabled (order : Orderly oem files s h) (reader : Fin builder.readerThreads) :
    (∃ next, Pipeline.step oem files s (.reader reader) = some next) ∨
      s.readers reader = .finished ∨
      (∃ fileId, s.readers reader = .acquiring fileId) ∧ s.available = [] ∨
      ∃ worker, (s.lanes worker).items ≠ [] := by
  simp only [Pipeline.step, readerStep]
  cases phase : s.readers reader with
  | idle =>
      left
      cases job : files[s.nextJob]? with
      | none => exact ⟨_, rfl⟩
      | some file => exact ⟨_, rfl⟩
  | acquiring fileId =>
      have calm : ¬ s.fatalError = true := by simp [order.calm]
      simp only [if_neg calm]
      cases free : s.available with
      | nil => exact .inr (.inr (.inl ⟨⟨fileId, rfl⟩, rfl⟩))
      | cons worker rest => exact .inl ⟨_, rfl⟩
  | sending fileId worker blocks reads =>
      cases blocks with
      | cons block blocks =>
          rcases order.pushBlock reader (by rw [phase]; rfl) with
            ⟨_, full⟩ | ⟨lane, _, accepted⟩
          · exact .inr (.inr (.inr ⟨worker, full⟩))
          · exact .inl ⟨_, accepted⟩
      | nil =>
          cases reads with
          | nil => exact .inl ⟨_, rfl⟩
          | cons read reads => exact .inl ⟨_, rfl⟩
  | completing fileId worker =>
      rcases order.pushBlock reader (by rw [phase]; rfl) with
        ⟨_, full⟩ | ⟨lane, _, accepted⟩
      · exact .inr (.inr (.inr ⟨worker, full⟩))
      · exact .inl ⟨_, accepted⟩
  | finishing =>
      left
      by_cases last : s.readersRemaining = 1
      · exact ⟨_, if_pos last⟩
      · exact ⟨_, if_neg last⟩
  | closing lanes =>
      cases lanes with
      | nil => exact .inl ⟨_, rfl⟩
      | cons worker rest => exact .inl ⟨_, rfl⟩
  | finished => exact .inr (.inl rfl)

/-- A lane that is not empty has an indexer that can move. -/
theorem enabled_of_items (order : Orderly oem files s h) {worker : Fin builder.indexerThreads}
    (filled : (s.lanes worker).items ≠ []) :
    ∃ thread next, Pipeline.step oem files s thread = some next := by
  obtain ⟨next, taken⟩ := order.indexer_enabled worker (by
    rw [transit]
    exact fun empty => filled (List.append_eq_nil_iff.mp empty).2)
  exact ⟨_, next, taken⟩

/-- When no indexer is available, some thread can move. -/
theorem enabled_of_occupied (order : Orderly oem files s h) (none : s.available = []) :
    ∃ thread next, Pipeline.step oem files s thread = some next := by
  have taken : ¬ ∀ fileId < files.length,
      (h.place fileId).worker ≠ some (⟨0, builder.hasIndexer⟩ : Fin builder.indexerThreads) := by
    rw [← order.available, none]
    exact List.not_mem_nil
  push Not at taken
  obtain ⟨fileId, listed, place⟩ := taken
  by_cases idle : s.transit ⟨0, builder.hasIndexer⟩ = []
  · obtain ⟨_, remaining, _, located⟩ := order.atWorker listed place
    rcases located with ⟨_, _, filled⟩ | ⟨reader, _, sends⟩
    · exact absurd idle filled
    · rcases order.reader_enabled reader with
        ⟨next, moved⟩ | finished | ⟨⟨acquired, acquires⟩, _⟩ | ⟨worker, filled⟩
      · exact ⟨_, next, moved⟩
      · rw [finished] at sends
        cases sends
      · rw [acquires] at sends
        cases sends
      · exact order.enabled_of_items filled
  · obtain ⟨next, moved⟩ := order.indexer_enabled _ idle
    exact ⟨_, next, moved⟩

/-- The pipeline is joined or can move. -/
theorem progress (order : Orderly oem files s h) (running : s.main ≠ .joined) :
    ∃ thread next, Pipeline.step oem files s thread = some next := by
  by_cases finished : ∀ reader, isFinished (s.readers reader) = true
  · cases phase : s.main with
    | joined => exact absurd phase running
    | joiningReaders =>
        refine ⟨.main, { s with
          main := .joiningIndexers, lanes := fun worker => (s.lanes worker).close }, ?_⟩
        simp only [Pipeline.step, mainStep, phase, if_pos finished]
    | joiningIndexers =>
        by_cases exited : ∀ worker, (s.indexers worker).exited = true
        · refine ⟨.main, { s with main := .joined }, ?_⟩
          simp only [Pipeline.step, mainStep, phase, if_pos exited]
        · push Not at exited
          obtain ⟨worker, alive⟩ := exited
          have closed := (order.joining (by simp [phase])).2 worker
          by_cases idle : s.transit worker = []
          · obtain ⟨noBlock, noItems⟩ := List.append_eq_nil_iff.mp idle
            have free : (s.indexers worker).current = none := by simpa using noBlock
            rcases BoundedByteQueue.pop_cases (order.running worker) with
              ⟨_, isOpen, _⟩ | ⟨_, _, drained⟩ | ⟨block, lane, took, first⟩
            · simp [closed] at isOpen
            · have outside : ¬ (s.indexers worker).document.isSome = true := by
                simp [order.document_eq_none idle closed]
              refine ⟨.indexer worker, s.setIndexer worker
                { s.indexers worker with exited := true }, ?_⟩
              simp only [Pipeline.step, indexerStep, if_neg alive, free, drained, if_neg outside]
            · rw [first.items] at noItems
              cases noItems
          · obtain ⟨next, moved⟩ := order.indexer_enabled _ idle
            exact ⟨_, next, moved⟩
  · push Not at finished
    obtain ⟨reader, unfinished⟩ := finished
    rcases order.reader_enabled reader with
      ⟨next, moved⟩ | done | ⟨_, occupied⟩ | ⟨worker, filled⟩
    · exact ⟨_, next, moved⟩
    · rw [done] at unfinished
      exact absurd rfl unfinished
    · exact order.enabled_of_occupied occupied
    · exact order.enabled_of_items filled

end Orderly

/-! ## The remaining work -/

/-- The actions that send the parts of some reads and handle them. -/
def readsCost (builder : BatchIndexBuilder) (reads : List Block) : Nat :=
  (reads.map fun read =>
    1 + 3 * (readParts builder.payloadSize read.isLastChunk read.data.length read.data).length).sum

/-- The actions of a reader from here to its end, with the handling of its blocks. -/
def readerCost (files : List SourceFile) : Reader builder → Nat
  | .idle => builder.indexerThreads + 3
  | .acquiring fileId =>
      builder.indexerThreads + 11 + readsCost builder (readBlocks (contentOf files fileId))
  | .sending _ _ blocks reads =>
      builder.indexerThreads + 7 + 3 * blocks.length + readsCost builder reads
  | .completing _ _ => builder.indexerThreads + 6
  | .finishing => builder.indexerThreads + 2
  | .closing lanes => lanes.length + 1
  | .finished => 0

/-- The actions of a document that is not taken. -/
def jobCost (builder : BatchIndexBuilder) (file : SourceFile) : Nat :=
  9 + readsCost builder (readBlocks file.content)

/-- What an indexer does before its next `pop`, and its end. -/
def indexerCost (indexer : Indexer) : Nat :=
  indexer.current.toList.length + if indexer.exited then 0 else 1

/-- The actions left to the thread that called `build`. -/
def mainCost : MainThread → Nat
  | .joiningReaders => 2
  | .joiningIndexers => 1
  | .joined => 0

/-- The remaining work of the pipeline. -/
def work (files : List SourceFile) (s : Pipeline builder) : Nat :=
  ((files.drop s.nextJob).map (jobCost builder)).sum +
    ∑ reader, readerCost files (s.readers reader) + ∑ worker, 2 * (s.lanes worker).items.length +
    ∑ worker, indexerCost (s.indexers worker) + mainCost s.main

section Work

variable (files) (s)

theorem readerCost_setReader (reader : Fin builder.readerThreads) (phase : Reader builder) :
    ∑ other, readerCost files ((s.setReader reader phase).readers other) +
        readerCost files (s.readers reader) =
      ∑ other, readerCost files (s.readers other) + readerCost files phase :=
  sum_changed_part s.readers reader phase (readerCost files)

theorem items_setLane (worker : Fin builder.indexerThreads) (lane : BoundedByteQueue FileBlock) :
    ∑ other, 2 * ((s.setLane worker lane).lanes other).items.length +
        2 * (s.lanes worker).items.length =
      ∑ other, 2 * (s.lanes other).items.length + 2 * lane.items.length :=
  sum_changed_part s.lanes worker lane fun queue => 2 * queue.items.length

theorem indexerCost_setIndexer (worker : Fin builder.indexerThreads) (indexer : Indexer) :
    ∑ other, indexerCost ((s.setIndexer worker indexer).indexers other) +
        indexerCost (s.indexers worker) =
      ∑ other, indexerCost (s.indexers other) + indexerCost indexer :=
  sum_changed_part s.indexers worker indexer indexerCost

end Work

theorem sum_drop_of_getElem? {file : SourceFile} {job : Nat} (listed : files[job]? = some file)
    (cost : SourceFile → Nat) :
    ((files.drop job).map cost).sum = cost file + ((files.drop (job + 1)).map cost).sum := by
  obtain ⟨inList, rfl⟩ := List.getElem?_eq_some_iff.mp listed
  rw [List.drop_eq_getElem_cons inList, List.map_cons, List.sum_cons]

/-- A move that changes a reader only. -/
theorem work_setReader_lt (reader : Fin builder.readerThreads) {phase : Reader builder}
    (jobs : ((files.drop after.nextJob).map (jobCost builder)).sum + readerCost files phase <
      ((files.drop s.nextJob).map (jobCost builder)).sum + readerCost files (s.readers reader))
    (readers : after.readers = (s.setReader reader phase).readers) (lanes : after.lanes = s.lanes)
    (indexers : after.indexers = s.indexers) (main : after.main = s.main) :
    work files after < work files s := by
  have sum := readerCost_setReader files s reader phase
  unfold work
  rw [readers, lanes, indexers, main]
  omega

/-- A move that changes an indexer only. -/
theorem work_setIndexer_lt (worker : Fin builder.indexerThreads) {indexer : Indexer}
    (cheaper : indexerCost indexer < indexerCost (s.indexers worker))
    (jobs : after.nextJob = s.nextJob) (readers : after.readers = s.readers)
    (lanes : after.lanes = s.lanes)
    (indexers : after.indexers = (s.setIndexer worker indexer).indexers)
    (main : after.main = s.main) : work files after < work files s := by
  have sum := indexerCost_setIndexer s worker indexer
  unfold work
  rw [jobs, readers, lanes, indexers, main]
  omega

/-- Every move does some of the remaining work. -/
theorem Move.work_lt (moved : Move oem files s h after later) :
    work files after < work files s := by
  cases moved with
  | take reader file idle job =>
      refine work_setReader_lt reader ?_ rfl rfl rfl rfl
      have dropped := sum_drop_of_getElem? job (jobCost builder)
      obtain ⟨inList, fileEq⟩ := List.getElem?_eq_some_iff.mp job
      have content : contentOf files s.nextJob = file.content := by
        rw [contentOf, job]
        rfl
      simp only [setReader, idle, readerCost, content, dropped, jobCost]
      omega
  | runOut reader idle none =>
      refine work_setReader_lt reader ?_ rfl rfl rfl rfl
      have beyond := List.getElem?_eq_none_iff.mp none
      rw [List.drop_eq_nil_of_le beyond]
      have later : files.drop (s.nextJob + 1) = [] := List.drop_eq_nil_of_le (by omega)
      simp only [setReader, later, idle, readerCost]
      omega
  | acquire reader fileId worker rest waits free =>
      refine work_setReader_lt reader ?_ rfl rfl rfl rfl
      simp only [setReader, waits, readerCost, List.length_singleton]
      omega
  | push reader fileId worker block blocks reads lane sends pushed =>
      have readers := readerCost_setReader files s reader (.sending fileId worker blocks reads)
      have lanes := items_setLane s worker lane
      rw [sends] at readers
      rw [pushed.items, List.length_append, List.length_singleton] at lanes
      simp only [work, setReader, setLane, readerCost, List.length_cons] at readers lanes ⊢
      omega
  | read reader fileId worker read reads sends =>
      refine work_setReader_lt reader ?_ rfl rfl rfl rfl
      simp only [setReader, sends, readerCost, readsCost, partsOf, List.map_cons, List.sum_cons,
        List.length_map, List.length_nil]
      omega
  | endReads reader fileId worker sends =>
      refine work_setReader_lt reader ?_ rfl rfl rfl rfl
      simp only [setReader, sends, readerCost, readsCost, List.map_nil, List.sum_nil,
        List.length_nil]
      omega
  | complete reader fileId worker lane completes pushed =>
      have readers := readerCost_setReader files s reader .idle
      have lanes := items_setLane s worker lane
      rw [completes] at readers
      rw [pushed.items, List.length_append, List.length_singleton] at lanes
      simp only [work, setReader, setLane, readerCost] at readers lanes ⊢
      omega
  | leave reader finishing others =>
      refine work_setReader_lt reader ?_ rfl rfl rfl rfl
      simp only [setReader, finishing, readerCost]
      omega
  | leaveLast reader finishing last =>
      refine work_setReader_lt reader ?_ rfl rfl rfl rfl
      simp only [setReader, finishing, readerCost, List.length_finRange]
      omega
  | close reader worker rest closing =>
      have readers := readerCost_setReader files s reader (.closing rest)
      have lanes := items_setLane s worker (s.lanes worker).close
      rw [closing] at readers
      rw [BoundedByteQueue.items_close] at lanes
      simp only [work, setReader, setLane, readerCost, List.length_cons] at readers lanes ⊢
      omega
  | endClosing reader closing =>
      refine work_setReader_lt reader ?_ rfl rfl rfl rfl
      simp only [setReader, closing, readerCost, List.length_nil]
      omega
  | pop worker block lane alive free popped =>
      have lanes := items_setLane s worker lane
      have indexers := indexerCost_setIndexer s worker
        { s.indexers worker with current := some block }
      rw [popped.items, List.length_cons] at lanes
      simp only [work, setLane, setIndexer, indexerCost, alive, free, Option.toList_some,
        Option.toList_none, List.length_singleton, List.length_nil] at lanes indexers ⊢
      omega
  | startDocument worker block alive current kind closed =>
      refine work_setIndexer_lt worker ?_ rfl rfl rfl rfl rfl
      simp [indexerCost, current]
  | tokenize worker block document alive current kind opened =>
      refine work_setIndexer_lt worker ?_ rfl rfl rfl rfl rfl
      simp [indexerCost, current]
  | commit worker block document alive current kind opened =>
      refine work_setIndexer_lt worker ?_ rfl rfl rfl rfl rfl
      simp [indexerCost, current]
  | exit worker alive free empty closed =>
      refine work_setIndexer_lt worker ?_ rfl rfl rfl rfl rfl
      simp [indexerCost, alive]
  | joinReaders joining finished =>
      simp only [work, joining, mainCost, BoundedByteQueue.items_close]
      omega
  | joinIndexers joining exited =>
      simp only [work, joining, mainCost]
      omega

/-- Every action keeps the order and does some of the remaining work. -/
theorem Orderly.step_work {state next : Pipeline builder × History builder}
    {thread : Thread builder} (order : Orderly oem files state.1 state.2)
    (taken : (machine oem builder files).step state thread = some next) :
    Orderly oem files next.1 next.2 ∧ work files next.1 < work files state.1 := by
  obtain ⟨after, stepped, rfl⟩ := Option.map_eq_some_iff.mp taken
  have moved := order.move stepped
  exact ⟨order.kept moved, moved.work_lt⟩

end SearchEngine.Batch.Pipeline
