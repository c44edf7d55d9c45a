import SearchEngine.Index.MirrorInvariant

/-!
# Runs of a mirrored index

Which steps keep the SQLite mirror equal to the index in memory, for whole runs.
`KeepsMirror` collects what a step must satisfy besides being tame: files with
words, counts that fit sixteen bits, no superseded word row in a batch of the
writer. Moreover the numbers of the index and of the mirror have to agree when a
batch is processed (`AlignedStep`).
-/

namespace SearchEngine.Index

open SearchEngine.Lib

namespace System

variable {oem : OemTable} {s next : System} {history : History}

/-- The word rows once the queue is written. -/
def mirrorWords (s : System) : WordId → Option Word :=
  addRows s.db.words.find? (s.queue.flatMap LiveMirrorOp.newWords)

/-- The document records once the queue is written. -/
def mirrorRecords (s : System) : FileId → Database.DocRecord :=
  mirrorRules.applyAll s.db.records s.queue

/-- The mirror stores postings of the document. -/
def MirrorHolds (s : System) (fileId : FileId) : Prop :=
  match lastWrite fileId s.queue with
  | some file => file.widCounts ≠ []
  | none => ∃ entry ∈ s.db.postings.entries, (ofLex entry.1).2 = fileId

instance (s : System) (fileId : FileId) : Decidable (s.MirrorHolds fileId) :=
  match queued : lastWrite fileId s.queue with
  | some file => decidable_of_iff (file.widCounts ≠ []) (by rw [MirrorHolds, queued])
  | none => decidable_of_iff (∃ entry ∈ s.db.postings.entries, (ofLex entry.1).2 = fileId)
      (by rw [MirrorHolds, queued])

/-- A batch of the writer loses no first offer of a word row. -/
def FlushKeepsRows (s : System) (order : IterationOrder) (queue : List LiveMirrorOp) : Prop :=
  FirstOffersSurvive s.db [(order, queue)]

instance (s : System) (order : IterationOrder) (queue : List LiveMirrorOp) :
    Decidable (s.FlushKeepsRows order queue) :=
  inferInstanceAs (Decidable (FirstOffersSurvive _ _))

/-- The condition on the strand task about to run. -/
def KeepsMirrorStrand (s : System) (order : IterationOrder) : StrandTask → Prop
  | .softDelete _ id _ => s.FlushKeepsRows order (s.queue ++ [.markDeleted id])
  | .processBatch batch =>
      batch.list ≠ [] ∧ (∀ entry ∈ batch.list, CountFits entry.2.toNat) ∧
        (batch.requireCatalogCommitBeforePublish = true → s.FlushKeepsRows order
          (s.queue ++ [batchWrite batch (s.index.passWords batch.fileId batch.list)]))
  | _ => True

/-- The condition on a step that keeps the mirror: processed files have words whose
counts fit, files that cannot be opened have no postings in the mirror, and no
batch of the writer supersedes the first offer of a word row. -/
def KeepsMirror (s : System) : Action → Prop
  | .runStrand order => ∀ task ∈ s.strand.head?, s.KeepsMirrorStrand order task
  | .runIndexing position none _ => ∀ task ∈ s.indexing[position]?, ¬ s.MirrorHolds task.fileId
  | .writeQueue order => s.FlushKeepsRows order s.queue
  | .finishUpdate order => s.FlushKeepsRows order s.queue
  | _ => True

/-- The words of a batch have, or are about to get, the numbers of their rows in
the mirror. -/
def AlignedBatch (s : System) (list : List (Word × UInt32)) : Prop :=
  MirrorInvariant.Aligned s.mirrorWords s.index.wordIds
    (s.index.wordIds.getIds (list.map Prod.fst)) list

/-- The condition on the strand task about to run: a batch is aligned. -/
def AlignedStrand (s : System) : StrandTask → Prop
  | .processBatch batch => s.AlignedBatch batch.list
  | _ => True

/-- The batch about to be processed is aligned. -/
def AlignedStep (s : System) : Action → Prop
  | .runStrand _ => ∀ task ∈ s.strand.head?, s.AlignedStrand task
  | _ => True

instance (s : System) (order : IterationOrder) (task : StrandTask) :
    Decidable (s.KeepsMirrorStrand order task) :=
  match task with
  | .softDelete _ _ _ => inferInstanceAs (Decidable (FlushKeepsRows _ _ _))
  | .processBatch batch => inferInstanceAs (Decidable (_ ∧ (∀ entry ∈ batch.list, _) ∧ _))
  | .upsert _ _ _ | .compact _ => isTrue trivial

instance (s : System) (action : Action) : Decidable (s.KeepsMirror action) :=
  match action with
  | .runStrand order =>
      inferInstanceAs (Decidable (∀ task ∈ s.strand.head?, s.KeepsMirrorStrand order task))
  | .runIndexing position none _ =>
      inferInstanceAs (Decidable (∀ task ∈ s.indexing[position]?, ¬ s.MirrorHolds task.fileId))
  | .writeQueue _ | .finishUpdate _ => inferInstanceAs (Decidable (FlushKeepsRows _ _ _))
  | .runIndexing _ (some _) _ | .enqueueFileUpdate _ _ | .enqueueFileDeletion _ | .compact _
  | .updateDocumentBase _ _ | .runCommit _ => isTrue trivial

instance (s : System) (list : List (Word × UInt32)) : Decidable (s.AlignedBatch list) :=
  inferInstanceAs (Decidable (MirrorInvariant.Aligned _ _ _ _))

instance (s : System) (task : StrandTask) : Decidable (s.AlignedStrand task) :=
  match task with
  | .processBatch batch => inferInstanceAs (Decidable (s.AlignedBatch batch.list))
  | .upsert _ _ _ | .softDelete _ _ _ | .compact _ => isTrue trivial

instance (s : System) (action : Action) : Decidable (s.AlignedStep action) :=
  match action with
  | .runStrand _ => inferInstanceAs (Decidable (∀ task ∈ s.strand.head?, s.AlignedStrand task))
  | .enqueueFileUpdate _ _ | .enqueueFileDeletion _ | .compact _ | .updateDocumentBase _ _
  | .finishUpdate _ | .runIndexing _ _ _ | .runCommit _ | .writeQueue _ => isTrue trivial

/-- The mirror and the history agree. -/
structure Mirrored (s : System) (history : History) : Prop where
  tables : MirrorInvariant s.mirrorWords s.mirrorRecords (· ∈ s.inFlight) history
  paths : s.db.PathsUnique

/-! ## The queue -/

theorem mirrorWords_enqueue (s : System) (ops : List LiveMirrorOp) :
    ({ s with queue := s.queue ++ ops } : System).mirrorWords =
      addRows s.mirrorWords (ops.flatMap LiveMirrorOp.newWords) := by
  rw [mirrorWords, List.flatMap_append, addRows_append, mirrorWords]

theorem mirrorRecords_enqueue (s : System) (ops : List LiveMirrorOp) :
    ({ s with queue := s.queue ++ ops } : System).mirrorRecords =
      mirrorRules.applyAll s.mirrorRecords ops := by
  rw [mirrorRecords, Coalescing.applyAll, List.foldl_append]
  rfl

/-- A flush that keeps the offered rows leaves the tables the queue promised. -/
theorem mirror_flush {order : IterationOrder} (keeps : s.FlushKeepsRows order s.queue)
    (flushed : s.flushPending order = some next) :
    next.mirrorWords = s.mirrorWords ∧ next.mirrorRecords = s.mirrorRecords ∧ next.queue = [] ∧
      (s.db.PathsUnique → next.db.PathsUnique) := by
  obtain ⟨db, written, rfl⟩ := flushPending_eq flushed
  obtain ⟨records, words⟩ := Database.writeBatch_spec written
  refine ⟨?_, records, rfl, fun unique => unique.writeBatch written⟩
  funext wordId
  have rows := offeredWord_coalescedOps [(order, s.queue)] wordId
  simp only [List.flatMap_cons, List.flatMap_nil, List.append_nil] at rows
  have kept := keeps wordId
  simp only [List.flatMap_cons, List.flatMap_nil, List.append_nil] at kept
  rw [mirrorWords, List.flatMap_nil, addRows, SortedMap.findEntry_nil, Option.or_none, words, rows,
    mirrorWords, addRows]
  cases stored : s.db.words.find? wordId with
  | some word => rfl
  | none => exact congrArg _ (kept stored)

theorem Mirrored.flushPending {order : IterationOrder} (mirrored : s.Mirrored history)
    (keeps : s.FlushKeepsRows order s.queue) (flushed : s.flushPending order = some next) :
    next.Mirrored history := by
  obtain ⟨words, records, _, unique⟩ := mirror_flush keeps flushed
  obtain ⟨db, _, rfl⟩ := flushPending_eq flushed
  constructor
  · rw [words, records]
    exact mirrored.tables
  · exact unique mirrored.paths

/-- Deletion marks in the queue. -/
theorem Mirrored.queueMarks (mirrored : s.Mirrored history) (ids : List FileId) :
    ({ s with queue := s.queue ++ ids.map .markDeleted } : System).Mirrored history := by
  have noOffers : (ids.map LiveMirrorOp.markDeleted).flatMap LiveMirrorOp.newWords = [] := by
    simp [LiveMirrorOp.newWords]
  have marked : ∀ records : FileId → Database.DocRecord,
      MirrorInvariant s.mirrorWords records (· ∈ s.inFlight) history →
      MirrorInvariant s.mirrorWords
        (mirrorRules.applyAll records (ids.map LiveMirrorOp.markDeleted)) (· ∈ s.inFlight) history := by
    induction ids with
    | nil => exact fun _ invariant => invariant
    | cons id rest ih =>
        intro records invariant
        refine ih ?_ _ (invariant.markDeleted id)
        simp [LiveMirrorOp.newWords]
  constructor
  · rw [mirrorWords_enqueue, mirrorRecords_enqueue, noOffers]
    have rows : addRows s.mirrorWords [] = s.mirrorWords := by
      funext wordId
      exact Option.or_none
    rw [rows]
    exact marked _ mirrored.tables
  · exact mirrored.paths

/-- A step that leaves the tables alone and only adds documents in flight. -/
theorem Mirrored.frame {other : History} (mirrored : s.Mirrored history)
    (sameTables : next.db = s.db ∧ next.queue = s.queue)
    (flights : ∀ fileId ∈ s.inFlight, fileId ∈ next.inFlight)
    (sameHistory : other.expected = history.expected ∧ other.indexedAs = history.indexedAs) :
    next.Mirrored other := by
  obtain ⟨db, queue⟩ := sameTables
  constructor
  · rw [mirrorWords, mirrorRecords, db, queue]
    exact (mirrored.tables.mono flights).of_history sameHistory.1 sameHistory.2
  · rw [db]
    exact mirrored.paths

/-! ## Steps -/

/-- The postings of a document are those of its last queued write. -/
theorem posting_applyAll (records : FileId → Database.DocRecord) (ops : List LiveMirrorOp)
    (fileId : FileId) :
    (mirrorRules.applyAll records ops fileId).posting =
      (lastWrite fileId ops).elim (records fileId).posting
        fun file wordId => Database.lastCount wordId none file.widCounts := by
  induction ops generalizing records with
  | nil => rfl
  | cons op rest ih =>
      have folded : mirrorRules.applyAll records (op :: rest) =
          mirrorRules.applyAll (mirrorRules.applyOp records op) rest := rfl
      rw [folded, ih]
      cases op with
      | markDeleted marked =>
          rw [applyOp_markDeleted, lastWrite]
          split <;> rfl
      | write file =>
          rw [applyOp_write, lastWrite]
          by_cases same : fileId = file.fileId
          · subst same
            cases lastWrite file.fileId rest <;> simp
          · have different : file.fileId ≠ fileId := Ne.symm same
            cases lastWrite fileId rest <;> simp [same, different]

theorem posting_eq_none_of_not_mirrorHolds {fileId : FileId} (empty : ¬ s.MirrorHolds fileId)
    (wordId : WordId) : (s.mirrorRecords fileId).posting wordId = none := by
  rw [mirrorRecords, posting_applyAll]
  unfold MirrorHolds at empty
  cases queued : lastWrite fileId s.queue with
  | some file =>
      simp only [queued, ne_eq, not_not] at empty
      simp [empty, Database.lastCount]
  | none =>
      simp only [queued, not_exists, not_and] at empty
      by_contra present
      obtain ⟨count, found⟩ := Option.ne_none_iff_exists'.mp present
      exact empty _ (SortedMap.mem_entries_iff.mpr found) rfl

theorem mirrorWords_staged (s : System) (batch : PostingBatch) (rest : List StrandTask) :
    (({ s with strand := rest } : System).staged batch).mirrorWords =
      addRows s.mirrorWords (s.index.passWords batch.fileId batch.list).newWords := by
  have queue : (({ s with strand := rest } : System).staged batch).queue =
      s.queue ++ [batchWrite batch (s.index.passWords batch.fileId batch.list)] := rfl
  rw [mirrorWords, queue, List.flatMap_append, addRows_append]
  simp [batchWrite, LiveMirrorOp.newWords, mirrorWords, System.staged]

theorem Mirrored.staged {batch : PostingBatch} {rest : List StrandTask}
    (mirrored : s.Mirrored history) (coherent : s.Coherent history)
    (front : s.strand = .processBatch batch :: rest)
    (fits : ∀ entry ∈ batch.list, CountFits entry.2.toNat) (aligned : s.AlignedBatch batch.list) :
    (({ s with strand := rest } : System).staged batch).Mirrored
      (observeStrand s history (.processBatch batch)) := by
  have listed : StrandTask.processBatch batch ∈ s.strand := front ▸ List.mem_cons_self
  obtain ⟨distinct, tokens⟩ := coherent.batches batch listed
  have spec := InvertedIndex.passSpec_passWords s.index batch.fileId distinct
  have permuted : s.inFlight.Perm (batch.fileId :: ({ s with strand := rest } : System).inFlight) := by
    simp [inFlight, front, StrandTask.batchFile]
  have idle : ∀ other, other ∉ ({ s with strand := rest } : System).inFlight → other ≠ batch.fileId →
      other ∉ s.inFlight := by
    intro other grounded different flies
    exact grounded ((mem_iff_of_perm_cons permuted coherent.single other).mpr ⟨flies, different⟩)
  rw [AlignedBatch, ← passWords_wordIds s.index batch.fileId] at aligned
  have written := mirrored.tables.write spec aligned coherent.postings distinct tokens fits idle
  constructor
  · have queue : (({ s with strand := rest } : System).staged batch).queue =
        s.queue ++ [batchWrite batch (s.index.passWords batch.fileId batch.list)] := rfl
    have records : (({ s with strand := rest } : System).staged batch).mirrorRecords =
        mirrorRules.applyOp s.mirrorRecords
          (batchWrite batch (s.index.passWords batch.fileId batch.list)) := by
      rw [mirrorRecords, queue, Coalescing.applyAll, List.foldl_append]
      rfl
    rw [mirrorWords_staged, records]
    exact MirrorInvariant.of_history written rfl rfl
  · exact mirrored.paths

theorem Mirrored.runProcessBatch {order : IterationOrder} {batch : PostingBatch}
    {rest : List StrandTask} (mirrored : s.Mirrored history) (coherent : s.Coherent history)
    (front : s.strand = .processBatch batch :: rest)
    (keeps : s.KeepsMirrorStrand order (.processBatch batch)) (aligned : s.AlignedBatch batch.list)
    (done : ({ s with strand := rest } : System).runProcessBatch order batch = some next) :
    next.Mirrored (observeStrand s history (.processBatch batch)) := by
  obtain ⟨filled, fits, keepsRows⟩ := keeps
  have staged := mirrored.staged coherent front fits aligned
  rw [runProcessBatch_eq _ _ _ filled] at done
  split at done
  · rename_i required
    obtain ⟨flushed, flush, rfl⟩ := Option.map_eq_some_iff.mp done
    exact (staged.flushPending (keepsRows required) flush).frame ⟨rfl, rfl⟩
      (fun _ member => member) ⟨rfl, rfl⟩
  · obtain rfl := Option.some.inj done
    exact staged

theorem Mirrored.runSoftDelete {order : IterationOrder} {id : FileId} (mirrored : s.Mirrored history)
    (keeps : s.FlushKeepsRows order (s.queue ++ [.markDeleted id]))
    (done : s.runSoftDelete order id = some next) : next.Mirrored history := by
  obtain ⟨flushed, flush, rfl⟩ := Option.map_eq_some_iff.mp done
  have marked := mirrored.queueMarks [id]
  exact (marked.flushPending keeps flush).frame ⟨rfl, rfl⟩ (fun _ member => member) ⟨rfl, rfl⟩

theorem Mirrored.runUpsert {ticket : Nat} {path : Path} {metadata : DocumentMetadata}
    (mirrored : s.Mirrored history) :
    (s.runUpsert ticket path metadata).Mirrored
      (observeStrand s history (.upsert ticket path metadata)) := by
  by_cases changed : (s.catalog.upsert s.db path metadata).2.2 = true
  · rw [System.runUpsert, if_pos changed, observeStrand, if_pos changed]
    refine mirrored.frame ⟨rfl, rfl⟩ ?_ ⟨rfl, rfl⟩
    intro fileId member
    simp only [inFlight, List.map_append, List.mem_append] at member ⊢
    exact member.imp_left .inl
  · rw [System.runUpsert, if_neg changed, observeStrand, if_neg changed]
    exact mirrored.frame ⟨rfl, rfl⟩ (fun _ member => member) ⟨rfl, rfl⟩

theorem inFlight_of_strand {rest : List StrandTask} {task : StrandTask}
    (front : s.strand = task :: rest) (noBatch : task.batchFile = none) :
    ({ s with strand := rest } : System).inFlight = s.inFlight := by
  rw [inFlight, inFlight, front, List.filterMap_cons_none noBatch]

theorem Mirrored.runStrand {order : IterationOrder} (mirrored : s.Mirrored history)
    (coherent : s.Coherent history) (keeps : s.KeepsMirror (.runStrand order))
    (aligned : s.AlignedStep (.runStrand order)) (done : s.runStrand order = some next) :
    next.Mirrored ((s.strand.head?.map (observeStrand s history)).getD history) := by
  unfold System.runStrand at done
  cases front : s.strand with
  | nil =>
      rw [front] at done
      cases done
  | cons task rest =>
      rw [front] at done
      have taskKeeps := keeps task (by rw [front]; rfl)
      rw [List.head?_cons, Option.map_some, Option.getD_some]
      have dropped : task.batchFile = none → ({ s with strand := rest } : System).Mirrored history := by
        intro noBatch
        refine mirrored.frame ⟨rfl, rfl⟩ ?_ ⟨rfl, rfl⟩
        rw [inFlight_of_strand front noBatch]
        exact fun _ member => member
      cases task with
      | upsert ticket path metadata =>
          obtain rfl := Option.some.inj done
          exact (dropped rfl).runUpsert
      | softDelete ticket id path =>
          exact ((dropped rfl).runSoftDelete taskKeeps done).frame ⟨rfl, rfl⟩
            (fun _ member => member) ⟨rfl, rfl⟩
      | processBatch batch =>
          exact mirrored.runProcessBatch coherent front taskKeeps
            (aligned (.processBatch batch) (by rw [front]; rfl)) done
      | compact thresholdPercent =>
          obtain rfl := Option.some.inj done
          unfold System.runCompact
          split <;> exact (dropped rfl).frame ⟨rfl, rfl⟩ (fun _ member => member) ⟨rfl, rfl⟩

theorem Mirrored.runIndexing {position : Nat} {content : Option (List Byte)}
    {list : List (Word × UInt32)} (mirrored : s.Mirrored history) (coherent : s.Coherent history)
    (keeps : s.KeepsMirror (.runIndexing position content list))
    (done : s.runIndexing oem position content list = some next) :
    next.Mirrored
      ((s.indexing[position]?.map fun task => observeIndexing history task content).getD history) := by
  obtain ⟨task, found, permuted, ⟨rfl, rfl⟩ | ⟨bytes, rfl, _, rfl⟩⟩ := runIndexing_cases done
  · rw [found]
    have flights : s.inFlight.Perm (task.fileId :: ({ s with
        indexing := s.indexing.eraseIdx position } : System).inFlight) :=
      (permuted.map IndexingTask.fileId).append_right _
    have noPostings := posting_eq_none_of_not_mirrorHolds (keeps task found)
    have idle : ∀ other, other ∉ ({ s with indexing := s.indexing.eraseIdx position } : System).inFlight →
        other ≠ task.fileId → other ∉ s.inFlight := by
      intro other grounded different flies
      exact grounded ((mem_iff_of_perm_cons flights coherent.single other).mpr ⟨flies, different⟩)
    have released := mirrored.tables.release noPostings idle
    exact ⟨MirrorInvariant.of_history released rfl rfl, mirrored.paths⟩
  · rw [found]
    have sameHistory : (((some task).map fun task => observeIndexing history task (some bytes)).getD
        history).expected = history.expected ∧ (((some task).map fun task =>
          observeIndexing history task (some bytes)).getD history).indexedAs = history.indexedAs := by
      simp only [Option.map_some, Option.getD_some, observeIndexing]
      split <;> exact ⟨rfl, rfl⟩
    refine mirrored.frame ⟨rfl, rfl⟩ ?_ sameHistory
    intro fileId member
    simp only [inFlight, List.filterMap_append, List.mem_append] at member ⊢
    rcases member with indexed | posted
    · rcases List.mem_cons.mp ((permuted.map IndexingTask.fileId).mem_iff.mp indexed) with rfl | later
      · exact .inr (.inr (List.mem_filterMap.mpr ⟨_, List.mem_singleton_self _, rfl⟩))
      · exact .inl later
    · exact .inr (.inl posted)

/-- Every step that is tame, keeps the mirror and has an aligned batch keeps the
mirror equal to the history. -/
theorem Mirrored.step {action : Action} (mirrored : s.Mirrored history) (coherent : s.Coherent history)
    (keeps : s.KeepsMirror action) (aligned : s.AlignedStep action)
    (done : s.step oem action = some next) : next.Mirrored (observe s action history) := by
  cases action with
  | enqueueFileUpdate path found =>
      simp only [System.step, System.enqueueFileUpdate] at done
      split at done
      · cases done
      cases found with
      | none =>
          obtain rfl := Option.some.inj done
          exact mirrored.frame ⟨rfl, rfl⟩ (fun _ member => member) ⟨rfl, rfl⟩
      | some metadata =>
          obtain rfl := Option.some.inj done
          refine mirrored.frame ⟨rfl, rfl⟩ ?_ ⟨rfl, rfl⟩
          intro fileId member
          simp only [inFlight, List.filterMap_append, List.mem_append] at member ⊢
          exact member.imp_right .inl
  | enqueueFileDeletion path =>
      simp only [System.step, System.enqueueFileDeletion] at done
      split at done
      · cases done
      split at done
      · obtain rfl := Option.some.inj done
        exact mirrored
      · obtain rfl := Option.some.inj done
        refine mirrored.frame ⟨rfl, rfl⟩ ?_ ⟨rfl, rfl⟩
        intro fileId member
        simp only [inFlight, List.filterMap_append, List.mem_append] at member ⊢
        exact member.imp_right .inl
  | compact thresholdPercent =>
      obtain rfl := Option.some.inj done
      refine mirrored.frame ⟨rfl, rfl⟩ ?_ ⟨rfl, rfl⟩
      intro fileId member
      simp only [inFlight, List.filterMap_append, List.mem_append] at member ⊢
      exact member.imp_right .inl
  | updateDocumentBase paths stat =>
      obtain ⟨_, idle, rfl | ⟨diff, _, rfl⟩⟩ := updateDocumentBase_cases done
      · exact mirrored.frame ⟨rfl, rfl⟩ (fun _ member => member) ⟨rfl, rfl⟩
      · refine (mirrored.queueMarks diff.removed).frame ⟨rfl, rfl⟩ ?_ ⟨rfl, rfl⟩
        intro fileId member
        have grounded : fileId ∈ s.inFlight := member
        rw [idle.inFlight_eq] at grounded
        cases grounded
  | finishUpdate order =>
      simp only [System.step, System.finishUpdate] at done
      split at done
      · obtain ⟨flushed, flush, rfl⟩ := Option.map_eq_some_iff.mp done
        exact (mirrored.flushPending keeps flush).frame ⟨rfl, rfl⟩ (fun _ member => member) ⟨rfl, rfl⟩
      · cases done
  | runStrand order => exact mirrored.runStrand coherent keeps aligned done
  | runIndexing position content list => exact mirrored.runIndexing coherent keeps done
  | runCommit position =>
      obtain ⟨groups, _, rfl⟩ := Option.map_eq_some_iff.mp done
      exact mirrored.frame ⟨rfl, rfl⟩ (fun _ member => member) ⟨rfl, rfl⟩
  | writeQueue order => exact mirrored.flushPending keeps done

/-! ## Loading the mirror -/

/-- A started index agrees with the database it was loaded from. -/
theorem mirrored_start {storage : CatalogStorage} {db : Database} {precountPostings : Bool}
    (resolves : db.PostingsResolve) (started : start storage db precountPostings = some s) :
    s.Mirrored s.loadedHistory := by
  obtain ⟨index, loaded, rfl⟩ := Option.map_eq_some_iff.mp started
  have accepted := (Database.schemaAccepted_iff db).mp (Database.schemaAccepted_of_load loaded)
  have words : System.mirrorWords ⟨openCatalog storage db, index, db, [], [], [], [], false, 0⟩ =
      db.words.find? := by
    funext wordId
    exact Option.or_none
  refine ⟨?_, accepted.1⟩
  rw [words]
  exact {
    counts := fun fileId _ word token count => (Database.answer_load loaded token fileId count).symm
    tokens := fun fileId _ => Database.answer_load_nil resolves loaded fileId
    resolved := fun fileId _ wordId present => resolves wordId fileId present
    rows := fun fileId wordId present => accepted.2 wordId fileId present
    indexed := fun _ _ _ recorded => by cases recorded }

/-- The database loads, and answers every word as the index in memory; every document
indexed by the run has a row with the metadata of its last batch. -/
def LoadsAlike (s : System) (history : History) : Prop :=
  s.db.PostingsResolve ∧
    (∀ precountPostings, ∃ loaded, s.db.load precountPostings = some loaded ∧
      ∀ word, loaded.getPostingCopyByWord word = s.index.getPostingCopyByWord word) ∧
    ∀ fileId path metadata, history.indexedAs fileId = some (path, metadata) →
      ∃ row, s.db.docs.find? fileId = some row ∧ row.path = path ∧
        row.mtimeTicks = metadata.mtimeTicks ∧ row.size = metadata.size

/-- An idle index with a written queue loads alike. -/
theorem Mirrored.loadsAlike (mirrored : s.Mirrored history) (coherent : s.Coherent history)
    (idle : s.Idle) (written : s.queue = []) : s.LoadsAlike history := by
  have words : s.mirrorWords = s.db.words.find? := by
    funext wordId
    rw [mirrorWords, written, addRows, List.flatMap_nil, SortedMap.findEntry_nil, Option.or_none]
  have records : s.mirrorRecords = s.db.records := by rw [mirrorRecords, written]; rfl
  have grounded : ∀ fileId, fileId ∉ s.inFlight := by
    intro fileId
    rw [idle.inFlight_eq]
    exact List.not_mem_nil
  have tables := mirrored.tables
  rw [words, records] at tables
  have postings := coherent.postings
  rw [idle.pendingTasks_eq] at postings
  have answer : ∀ fileId word, s.index.answer word fileId = history.expected fileId word := by
    intro fileId word
    rw [InvertedIndex.answer_eq_drainedAnswer postings.flat]
    exact postings.stored fileId (grounded fileId) word
  have resolves : s.db.PostingsResolve :=
    fun wordId fileId present => tables.resolved fileId (grounded fileId) wordId present
  have accepted : s.db.SchemaAccepted :=
    (Database.schemaAccepted_iff s.db).mpr
      ⟨mirrored.paths, fun wordId fileId present => tables.rows fileId wordId present⟩
  refine ⟨resolves, ?_, fun fileId path metadata recorded => tables.indexed _ _ _ recorded⟩
  intro precountPostings
  obtain ⟨loaded, done⟩ := Database.load_succeeds accepted resolves precountPostings
  refine ⟨loaded, done, fun word => InvertedIndex.getPostingCopyByWord_eq_of_answer fun fileId => ?_⟩
  rw [answer]
  by_cases token : word = []
  · rw [token, Database.answer_load_nil resolves done, tables.tokens fileId (grounded fileId)]
  · apply Option.ext
    intro count
    rw [Database.answer_load done token]
    exact tables.counts fileId (grounded fileId) word token count

/-- The condition on a step of a mirrored index. -/
def MirrorTame (s : System) (action : Action) : Prop :=
  s.Tame action ∧ s.KeepsMirror action

/-- A schedule of such steps with aligned batches keeps the mirror. -/
theorem Mirrored.run {actions : List Action} {final : System × History}
    (mirrored : s.Mirrored history) (coherent : s.Coherent history)
    (allowed : (monitored oem).Conforms
      (fun state action => state.1.MirrorTame action ∧ state.1.AlignedStep action) (s, history) actions)
    (done : (monitored oem).run (s, history) actions = some final) :
    final.1.Mirrored final.2 ∧ final.1.Coherent final.2 := by
  have kept : ∀ (state : System × History) action after,
      (state.1.Mirrored state.2 ∧ state.1.Coherent state.2) →
      (state.1.MirrorTame action ∧ state.1.AlignedStep action) →
      (monitored oem).step state action = some after →
        after.1.Mirrored after.2 ∧ after.1.Coherent after.2 := by
    rintro ⟨before, recorded⟩ action after ⟨knownMirror, known⟩ ⟨⟨tame, keeps⟩, aligned⟩ taken
    obtain ⟨reached, stepped, rfl⟩ := Option.map_eq_some_iff.mp taken
    exact ⟨knownMirror.step known keeps aligned stepped, known.step tame stepped⟩
  exact Machine.invariant_run kept ⟨mirrored, coherent⟩ allowed done

end System

end SearchEngine.Index
