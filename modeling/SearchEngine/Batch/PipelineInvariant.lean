import SearchEngine.Batch.Pipeline
import Mathlib.Algebra.BigOperators.Fin

/-!
# Order in the pipeline

Every document is in one place, its handled blocks, the blocks in its lane and
the blocks its reader still has to send make up the document in order, and a
worker has at most one document. No thread fails in such a state, so every
action is one of the ordinary moves listed in `Move`.
-/

namespace SearchEngine.Batch.Pipeline

open SearchEngine.Lib SearchEngine.Index

variable {builder : BatchIndexBuilder}

/-! ## The blocks of a document -/

/-- The blocks of the document with this number. -/
def blocksOf (builder : BatchIndexBuilder) (files : List SourceFile) (fileId : FileId) :
    List FileBlock :=
  documentBlocks builder.payloadSize fileId (contentOf files fileId)

/-- The blocks a reader has not pushed yet, with their document and lane. -/
def outgoing : Reader builder → Option (FileId × Fin builder.indexerThreads × List FileBlock)
  | .sending fileId worker blocks reads =>
      some (fileId, worker, blocks ++ reads.flatMap (partsOf builder.payloadSize fileId) ++
        [{ kind := .complete, fileId }])
  | .completing fileId worker => some (fileId, worker, [{ kind := .complete, fileId }])
  | _ => none

/-- The blocks a worker has to handle. -/
def transit (s : Pipeline builder) (worker : Fin builder.indexerThreads) : List FileBlock :=
  (s.indexers worker).current.toList ++ (s.lanes worker).items

/-- The accumulator of an indexer after the blocks handled so far. -/
def openDocument (oem : OemTable) (fileId : FileId) :
    List FileBlock → Option DocumentAccumulator
  | [] => none
  | _ :: blocks => some (blocks.foldl (fun document block =>
      tokenizeBlock oem document ⟨block.data, block.isLastChunk⟩) { fileId })

theorem blocksOf_eq (builder : BatchIndexBuilder) (files : List SourceFile) (fileId : FileId) :
    blocksOf builder files fileId =
      { kind := .start, fileId } ::
        (readBlocks (contentOf files fileId)).flatMap (partsOf builder.payloadSize fileId) ++
        [{ kind := .complete, fileId }] := by
  rw [blocksOf, documentBlocks, dataBlocks, List.map_flatMap]
  rfl

theorem openDocument_append {oem : OemTable} {fileId : FileId} {handled : List FileBlock}
    {document : DocumentAccumulator} (opened : openDocument oem fileId handled = some document)
    (block : FileBlock) :
    openDocument oem fileId (handled ++ [block]) =
      some (tokenizeBlock oem document ⟨block.data, block.isLastChunk⟩) := by
  cases handled with
  | nil => cases opened
  | cons first rest =>
      obtain rfl := Option.some.inj opened
      rw [List.cons_append, openDocument, List.foldl_append]
      rfl

theorem fileId_of_openDocument {oem : OemTable} {fileId : FileId} {handled : List FileBlock}
    {document : DocumentAccumulator} (opened : openDocument oem fileId handled = some document) :
    document.fileId = fileId := by
  cases handled with
  | nil => cases opened
  | cons first rest =>
      obtain rfl := Option.some.inj opened
      clear opened
      have kept : ∀ (blocks : List FileBlock) (start : DocumentAccumulator),
          (blocks.foldl (fun document block =>
            tokenizeBlock oem document ⟨block.data, block.isLastChunk⟩) start).fileId =
              start.fileId := by
        intro blocks
        induction blocks with
        | nil => exact fun _ => rfl
        | cons block others ih => exact fun start => ih _
      exact kept rest _

/-- What the next block of a document is, by the blocks before it. -/
theorem next_block_cases (oem : OemTable) {payloadSize : Nat} {fileId : FileId}
    {content : List Byte} {handled rest : List FileBlock} {block : FileBlock}
    (split : handled ++ block :: rest = documentBlocks payloadSize fileId content) :
    block.fileId = fileId ∧
      (handled = [] ∧ block.kind = .start ∨
        (∃ document, openDocument oem fileId handled = some document) ∧ block.kind = .data ∨
        openDocument oem fileId handled = some (accumulate oem payloadSize fileId content) ∧
          block.kind = .complete ∧ rest = []) := by
  unfold documentBlocks at split
  cases handled with
  | nil =>
      obtain ⟨rfl, _⟩ := List.cons.inj split
      exact ⟨rfl, .inl ⟨rfl, rfl⟩⟩
  | cons first earlier =>
      have tail := (List.cons.inj split).2
      rcases List.append_eq_append_iff.mp tail with ⟨middle, before, after⟩ | ⟨middle, before, after⟩
      · cases middle with
        | nil =>
            rw [List.append_nil] at before
            obtain ⟨rfl, rest⟩ := List.cons.inj after
            refine ⟨rfl, .inr (.inr ⟨?_, rfl, rest⟩)⟩
            rw [openDocument, ← before, List.foldl_map]
            rfl
        | cons head others =>
            obtain ⟨rfl, _⟩ := List.cons.inj after
            have member : block ∈ (dataBlocks payloadSize content).map fun part : Block =>
                ({ kind := .data, fileId, isLastChunk := part.isLastChunk, data := part.data } :
                  FileBlock) := by
              rw [before]
              simp
            obtain ⟨part, _, rfl⟩ := List.mem_map.mp member
            exact ⟨rfl, .inr (.inl ⟨⟨_, rfl⟩, rfl⟩)⟩
      · have short := congrArg List.length after
        simp only [List.length_append, List.length_cons, List.length_nil] at short
        have empty : middle = [] := List.length_eq_zero_iff.mp (by omega)
        subst empty
        rw [List.append_nil] at before
        obtain ⟨rfl, rest⟩ := List.cons.inj after
        refine ⟨rfl, .inr (.inr ⟨?_, rfl, rest.symm⟩)⟩
        rw [openDocument, before, List.foldl_map]
        rfl

theorem length_le_of_mem_readParts {payloadSize fuel : Nat} {isLastRead : Bool}
    {data : List Byte} {part : Block}
    (member : part ∈ readParts payloadSize isLastRead fuel data) :
    part.data.length ≤ payloadSize := by
  induction fuel generalizing data with
  | zero => cases member
  | succ fuel ih =>
      unfold readParts at member
      split at member
      · cases member
      · rcases List.mem_cons.mp member with rfl | later
        · rw [List.length_take]
          exact Nat.min_le_left _ _
        · exact ih later

/-- Every block of a document fits an empty lane. -/
theorem weightOf_le_of_mem_blocksOf {files : List SourceFile} {fileId : FileId}
    {block : FileBlock} (member : block ∈ blocksOf builder files fileId) :
    BoundedByteQueue.weightOf block.weightBytes ≤ builder.laneCapacity := by
  have unit : BoundedByteQueue.weightOf 1 ≤ builder.laneCapacity := builder.laneCapacity_pos
  rw [blocksOf_eq, List.cons_append, List.mem_cons, List.mem_append, List.mem_flatMap,
    List.mem_singleton] at member
  rcases member with rfl | ⟨read, _, part⟩ | rfl
  · exact unit
  · obtain ⟨piece, listed, rfl⟩ := List.mem_map.mp part
    have short : piece.data.length ≤ builder.laneCapacity :=
      (length_le_of_mem_readParts listed).trans builder.payloadSize_le
    unfold BoundedByteQueue.weightOf
    split
    · exact unit
    · exact short
  · exact unit

/-! ## Ordinary moves -/

/-- An action of a pipeline in which nothing fails. -/
inductive Move (oem : OemTable) (files : List SourceFile) (s : Pipeline builder)
    (h : History builder) : Pipeline builder → History builder → Prop where
  | take (reader) (file : SourceFile) (idle : s.readers reader = .idle)
      (job : files[s.nextJob]? = some file) :
      Move oem files s h
        ({ s with
          nextJob := s.nextJob + 1
          documentMetadata := s.documentMetadata.set s.nextJob file.metadata }.setReader reader
            (.acquiring s.nextJob))
        { h with place := Function.update h.place s.nextJob (.held reader) }
  | runOut (reader) (idle : s.readers reader = .idle) (none : files[s.nextJob]? = none) :
      Move oem files s h ({ s with nextJob := s.nextJob + 1 }.setReader reader .finishing) h
  | acquire (reader fileId worker rest) (waits : s.readers reader = .acquiring fileId)
      (free : s.available = worker :: rest) :
      Move oem files s h
        ({ s with available := rest }.setReader reader (.sending fileId worker
          [{ kind := .start, fileId }] (readBlocks (contentOf files fileId))))
        { h with place := Function.update h.place fileId (.sending reader worker) }
  | push (reader fileId worker block blocks reads lane)
      (sends : s.readers reader = .sending fileId worker (block :: blocks) reads)
      (pushed : (s.lanes worker).Pushed block lane) :
      Move oem files s h
        ((s.setLane worker lane).setReader reader (.sending fileId worker blocks reads)) h
  | read (reader fileId worker read reads)
      (sends : s.readers reader = .sending fileId worker [] (read :: reads)) :
      Move oem files s h
        ({ s with bytesRead := s.bytesRead + read.data.length }.setReader reader
          (.sending fileId worker (partsOf builder.payloadSize fileId read) reads)) h
  | endReads (reader fileId worker) (sends : s.readers reader = .sending fileId worker [] []) :
      Move oem files s h (s.setReader reader (.completing fileId worker)) h
  | complete (reader fileId worker lane) (completes : s.readers reader = .completing fileId worker)
      (pushed : (s.lanes worker).Pushed { kind := .complete, fileId } lane) :
      Move oem files s h ((s.setLane worker lane).setReader reader .idle)
        { h with place := Function.update h.place fileId (.sent worker) }
  | leave (reader) (finishing : s.readers reader = .finishing) (others : s.readersRemaining ≠ 1) :
      Move oem files s h
        ({ s with readersRemaining := s.readersRemaining - 1 }.setReader reader .finished) h
  | leaveLast (reader) (finishing : s.readers reader = .finishing)
      (last : s.readersRemaining = 1) :
      Move oem files s h
        ({ s with readersRemaining := 0 }.setReader reader (.closing (List.finRange _))) h
  | close (reader worker rest) (closing : s.readers reader = .closing (worker :: rest)) :
      Move oem files s h
        ((s.setLane worker (s.lanes worker).close).setReader reader (.closing rest)) h
  | endClosing (reader) (closing : s.readers reader = .closing []) :
      Move oem files s h (s.setReader reader .finished) h
  | pop (worker block lane) (alive : (s.indexers worker).exited = false)
      (free : (s.indexers worker).current = none) (popped : (s.lanes worker).Popped block lane) :
      Move oem files s h
        ((s.setLane worker lane).setIndexer worker
          { s.indexers worker with current := some block }) h
  | startDocument (worker block) (alive : (s.indexers worker).exited = false)
      (current : (s.indexers worker).current = some block) (kind : block.kind = .start)
      (closed : (s.indexers worker).document = none) :
      Move oem files s h
        (s.setIndexer worker { s.indexers worker with
          current := none, document := some { fileId := block.fileId } })
        (h.handle worker block)
  | tokenize (worker block document) (alive : (s.indexers worker).exited = false)
      (current : (s.indexers worker).current = some block) (kind : block.kind = .data)
      (opened : (s.indexers worker).document = some document) :
      Move oem files s h
        (s.setIndexer worker { s.indexers worker with
          current := none
          document := some (tokenizeBlock oem document ⟨block.data, block.isLastChunk⟩) })
        (h.handle worker block)
  | commit (worker block document) (alive : (s.indexers worker).exited = false)
      (current : (s.indexers worker).current = some block) (kind : block.kind = .complete)
      (opened : (s.indexers worker).document = some document) :
      Move oem files s h
        { ({ s with indexedFiles := s.indexedFiles + 1 }.setIndexer worker
            { s.indexers worker with
              current := none
              document := none
              dictionary := commitDocument document (s.indexers worker).dictionary }) with
          available := s.available ++ [worker] }
        (h.handle worker block)
  | exit (worker) (alive : (s.indexers worker).exited = false)
      (free : (s.indexers worker).current = none) (empty : (s.lanes worker).items = [])
      (closed : (s.lanes worker).closed = true) :
      Move oem files s h (s.setIndexer worker { s.indexers worker with exited := true }) h
  | joinReaders (joining : s.main = .joiningReaders)
      (finished : ∀ reader, isFinished (s.readers reader) = true) :
      Move oem files s h
        { s with main := .joiningIndexers, lanes := fun worker => (s.lanes worker).close } h
  | joinIndexers (joining : s.main = .joiningIndexers)
      (exited : ∀ worker, (s.indexers worker).exited = true) :
      Move oem files s h { s with main := .joined } h

/-! ## The invariant -/

/-- The worker a document is assigned to and has not left. -/
def Place.worker : Place builder → Option (Fin builder.indexerThreads)
  | .sending _ worker => some worker
  | .sent worker => some worker
  | _ => none

/-- The reader has decremented `readersRemaining`. -/
def hasLeft : Reader builder → Bool
  | .closing _ => true
  | .finished => true
  | _ => false

/-- The reader found no further document. -/
def ranOut : Reader builder → Bool
  | .finishing => true
  | reader => hasLeft reader

/-- The blocks of a document and its accumulator, by the place of the document. -/
def Settled (oem : OemTable) (files : List SourceFile) (s : Pipeline builder)
    (h : History builder) (fileId : FileId) : Prop :=
  match h.place fileId with
  | .waiting => s.nextJob ≤ fileId ∧ h.handled fileId = []
  | .held reader =>
      fileId < s.nextJob ∧ h.handled fileId = [] ∧ s.readers reader = .acquiring fileId
  | .sending reader worker =>
      fileId < s.nextJob ∧
        (s.indexers worker).document = openDocument oem fileId (h.handled fileId) ∧
        ∃ remaining, outgoing (s.readers reader) = some (fileId, worker, remaining) ∧
          h.handled fileId ++ (s.transit worker ++ remaining) = blocksOf builder files fileId
  | .sent worker =>
      fileId < s.nextJob ∧
        (s.indexers worker).document = openDocument oem fileId (h.handled fileId) ∧
        h.handled fileId ++ s.transit worker = blocksOf builder files fileId ∧
        ∃ block ∈ s.transit worker, block.kind = .complete
  | .committed _ => fileId < s.nextJob ∧ h.handled fileId = blocksOf builder files fileId

/-- Every document is where its place says, and a worker has at most one. -/
structure Documents (oem : OemTable) (files : List SourceFile) (s : Pipeline builder)
    (h : History builder) : Prop where
  settled : ∀ fileId < files.length, Settled oem files s h fileId
  acquiring : ∀ reader fileId, s.readers reader = .acquiring fileId →
    fileId < files.length ∧ h.place fileId = .held reader
  sender : ∀ reader fileId worker remaining,
    outgoing (s.readers reader) = some (fileId, worker, remaining) →
      fileId < files.length ∧ h.place fileId = .sending reader worker
  alone : ∀ first < files.length, ∀ second < files.length, ∀ worker,
    (h.place first).worker = some worker → (h.place second).worker = some worker → first = second
  available : ∀ worker, worker ∈ s.available ↔
    ∀ fileId < files.length, (h.place fileId).worker ≠ some worker
  unoccupied : ∀ worker ∈ s.available,
    s.transit worker = [] ∧ (s.indexers worker).document = none
  nodup : s.available.Nodup

/-- Lanes are closed after the last reader, and indexers end on closed lanes. -/
structure Closing (files : List SourceFile) (s : Pipeline builder) : Prop where
  closed : ∀ worker, (s.lanes worker).closed = true →
    ∀ reader, hasLeft (s.readers reader) = true
  remaining : s.readersRemaining = ∑ reader, if hasLeft (s.readers reader) then 0 else 1
  last : ∀ reader lanes, s.readers reader = .closing lanes → s.readersRemaining = 0
  exhausted : ∀ reader, ranOut (s.readers reader) = true → files.length ≤ s.nextJob
  exited : ∀ worker, (s.indexers worker).exited = true →
    (s.lanes worker).closed = true ∧ s.transit worker = []
  joining : s.main ≠ .joiningReaders →
    (∀ reader, isFinished (s.readers reader) = true) ∧ ∀ worker, (s.lanes worker).closed = true
  joined : s.main = .joined → ∀ worker, (s.indexers worker).exited = true

/-- Nothing failed, and the lanes have their capacity. -/
structure Running (s : Pipeline builder) : Prop where
  calm : s.fatalError = false
  running : ∀ worker, (s.lanes worker).cancelled = false
  capacity : ∀ worker, (s.lanes worker).capacityBytes = builder.laneCapacity

/-- Documents, lanes and threads are in order. -/
structure Orderly (oem : OemTable) (files : List SourceFile) (s : Pipeline builder)
    (h : History builder) : Prop
  extends Documents oem files s h, Closing files s, Running s

section SettledAt

variable {oem : OemTable} {files : List SourceFile} {s : Pipeline builder} {h : History builder}
  {fileId : FileId} {reader : Fin builder.readerThreads} {worker : Fin builder.indexerThreads}

theorem settled_waiting (located : h.place fileId = .waiting) :
    Settled oem files s h fileId ↔ s.nextJob ≤ fileId ∧ h.handled fileId = [] := by
  rw [Settled, located]

theorem settled_held (located : h.place fileId = .held reader) :
    Settled oem files s h fileId ↔
      fileId < s.nextJob ∧ h.handled fileId = [] ∧ s.readers reader = .acquiring fileId := by
  rw [Settled, located]

theorem settled_sending (located : h.place fileId = .sending reader worker) :
    Settled oem files s h fileId ↔
      fileId < s.nextJob ∧
        (s.indexers worker).document = openDocument oem fileId (h.handled fileId) ∧
        ∃ remaining, outgoing (s.readers reader) = some (fileId, worker, remaining) ∧
          h.handled fileId ++ (s.transit worker ++ remaining) = blocksOf builder files fileId := by
  rw [Settled, located]

theorem settled_sent (located : h.place fileId = .sent worker) :
    Settled oem files s h fileId ↔
      fileId < s.nextJob ∧
        (s.indexers worker).document = openDocument oem fileId (h.handled fileId) ∧
        h.handled fileId ++ s.transit worker = blocksOf builder files fileId ∧
        ∃ block ∈ s.transit worker, block.kind = .complete := by
  rw [Settled, located]

theorem settled_committed (located : h.place fileId = .committed worker) :
    Settled oem files s h fileId ↔
      fileId < s.nextJob ∧ h.handled fileId = blocksOf builder files fileId := by
  rw [Settled, located]

end SettledAt

/-! ## Every action is a move -/

namespace Orderly

variable {oem : OemTable} {files : List SourceFile} {s after : Pipeline builder}
  {h : History builder}

/-- What is left of a document at its worker. -/
theorem atWorker (order : Orderly oem files s h) {fileId : FileId}
    {worker : Fin builder.indexerThreads} (listed : fileId < files.length)
    (place : (h.place fileId).worker = some worker) :
    (s.indexers worker).document = openDocument oem fileId (h.handled fileId) ∧
      ∃ remaining, h.handled fileId ++ (s.transit worker ++ remaining) =
          blocksOf builder files fileId ∧
        (h.place fileId = .sent worker ∧ remaining = [] ∧ s.transit worker ≠ [] ∨
          ∃ reader, h.place fileId = .sending reader worker ∧
            outgoing (s.readers reader) = some (fileId, worker, remaining)) := by
  have settled := order.settled fileId listed
  cases located : h.place fileId with
  | waiting => simp [located, Place.worker] at place
  | held reader => simp [located, Place.worker] at place
  | committed other => simp [located, Place.worker] at place
  | sending reader other =>
      obtain rfl : other = worker := by simpa [located, Place.worker] using place
      obtain ⟨_, document, remaining, sends, blocks⟩ := (settled_sending located).mp settled
      exact ⟨document, remaining, blocks, .inr ⟨reader, rfl, sends⟩⟩
  | sent other =>
      obtain rfl : other = worker := by simpa [located, Place.worker] using place
      obtain ⟨_, document, blocks, last, member, _⟩ := (settled_sent located).mp settled
      exact ⟨document, [], by rw [List.append_nil]; exact blocks,
        .inl ⟨rfl, rfl, List.ne_nil_of_mem member⟩⟩

/-- A worker with something to handle has a document. -/
theorem occupied (order : Orderly oem files s h) {worker : Fin builder.indexerThreads}
    (busy : s.transit worker ≠ []) :
    ∃ fileId < files.length, (h.place fileId).worker = some worker := by
  by_contra none
  have free : worker ∈ s.available :=
    (order.available worker).mpr fun fileId listed place => none ⟨fileId, listed, place⟩
  exact busy (order.unoccupied worker free).1

/-- The popped block is the next one of the document of its worker. -/
theorem current (order : Orderly oem files s h) {worker : Fin builder.indexerThreads}
    {block : FileBlock} (popped : (s.indexers worker).current = some block) :
    block.fileId < files.length ∧ (h.place block.fileId).worker = some worker ∧
      (s.indexers worker).document = openDocument oem block.fileId (h.handled block.fileId) ∧
      ∃ rest, h.handled block.fileId ++ block :: rest = blocksOf builder files block.fileId := by
  have front : s.transit worker = block :: (s.lanes worker).items := by
    rw [transit, popped]
    rfl
  obtain ⟨fileId, listed, place⟩ := order.occupied (by rw [front]; exact List.cons_ne_nil _ _)
  obtain ⟨document, remaining, blocks, _⟩ := order.atWorker listed place
  rw [front, List.cons_append] at blocks
  obtain ⟨rfl, _⟩ := next_block_cases oem blocks
  exact ⟨listed, place, document, _, blocks⟩

/-- The block a reader pushes fits its lane, which is open. -/
theorem pushBlock (order : Orderly oem files s h) (reader : Fin builder.readerThreads)
    {fileId : FileId} {worker : Fin builder.indexerThreads} {block : FileBlock}
    {rest : List FileBlock} {next : Reader builder}
    (sends : outgoing (s.readers reader) = some (fileId, worker, block :: rest)) :
    s.pushBlock reader worker block next = none ∧ (s.lanes worker).items ≠ [] ∨
      ∃ lane, (s.lanes worker).Pushed block lane ∧
        s.pushBlock reader worker block next = some ((s.setLane worker lane).setReader reader next) := by
  obtain ⟨listed, place⟩ := order.sender _ _ _ _ sends
  obtain ⟨_, _, remaining, sent, blocks⟩ := (settled_sending place).mp (order.settled fileId listed)
  obtain rfl : block :: rest = remaining := by simpa [sends] using sent
  have member : block ∈ blocksOf builder files fileId := by
    rw [← blocks]
    simp
  have light : BoundedByteQueue.weightOf block.weightBytes ≤ (s.lanes worker).capacityBytes := by
    rw [order.capacity]
    exact weightOf_le_of_mem_blocksOf member
  have isOpen : (s.lanes worker).closed = false := by
    cases isClosed : (s.lanes worker).closed with
    | false => rfl
    | true =>
        have left := order.closed worker isClosed reader
        cases phase : s.readers reader <;> simp [phase, outgoing, hasLeft] at sends left
  unfold Pipeline.pushBlock
  rcases BoundedByteQueue.push_cases light isOpen (order.running worker) with
    ⟨waits, full⟩ | ⟨lane, pushed, accepted⟩
  · rw [waits]
    exact .inl ⟨rfl, full⟩
  · rw [pushed]
    exact .inr ⟨lane, accepted, rfl⟩

/-- An indexer whose closed lane is empty is not inside a document. -/
theorem document_eq_none (order : Orderly oem files s h) {worker : Fin builder.indexerThreads}
    (empty : s.transit worker = []) (closed : (s.lanes worker).closed = true) :
    (s.indexers worker).document = none := by
  by_cases free : worker ∈ s.available
  · exact (order.unoccupied worker free).2
  · have taken := mt (order.available worker).mpr free
    push Not at taken
    obtain ⟨fileId, listed, place⟩ := taken
    obtain ⟨_, remaining, _, located⟩ := order.atWorker listed place
    rcases located with ⟨_, _, filled⟩ | ⟨reader, _, sends⟩
    · exact absurd empty filled
    · have left := order.closed worker closed reader
      cases phase : s.readers reader <;> simp [phase, outgoing, hasLeft] at sends left

/-- Handling a popped block is an ordinary move. -/
theorem handleBlock (order : Orderly oem files s h) {worker : Fin builder.indexerThreads}
    {block : FileBlock} (alive : (s.indexers worker).exited = false)
    (popped : (s.indexers worker).current = some block) :
    Move oem files s h (s.handleBlock oem worker block) (h.handle worker block) := by
  obtain ⟨_, _, documentEq, rest, blocks⟩ := order.current popped
  obtain ⟨_, kinds⟩ := next_block_cases oem blocks
  unfold Pipeline.handleBlock
  rcases kinds with ⟨first, kind⟩ | ⟨⟨document, opened⟩, kind⟩ | ⟨opened, kind, _⟩
  · have closed : (s.indexers worker).document = none := by
      rw [documentEq, first]
      rfl
    rw [kind, closed]
    exact .startDocument worker block alive popped kind closed
  · have sameFile := fileId_of_openDocument opened
    rw [opened] at documentEq
    simp only [kind, documentEq, sameFile, if_true]
    exact .tokenize worker block document alive popped kind documentEq
  · have sameFile := fileId_of_openDocument opened
    rw [opened] at documentEq
    simp only [kind, documentEq, sameFile, if_true]
    rw [release, if_neg (by rw [setIndexer, order.calm]; exact Bool.false_ne_true)]
    exact .commit worker block _ alive popped kind documentEq

/-- Every action taken in order is an ordinary move. -/
theorem move (order : Orderly oem files s h) {thread : Thread builder}
    (taken : step oem files s thread = some after) :
    Move oem files s h after (observe files s thread h) := by
  cases thread with
  | reader reader =>
      simp only [step, readerStep] at taken
      simp only [observe]
      cases phase : s.readers reader with
      | idle =>
          simp only [phase] at taken
          cases job : files[s.nextJob]? with
          | none =>
              have beyond : ¬ s.nextJob < files.length := by
                rw [not_lt]
                exact List.getElem?_eq_none_iff.mp job
              rw [job] at taken
              obtain rfl := Option.some.inj taken
              simp only [if_neg beyond]
              exact .runOut reader phase job
          | some file =>
              obtain ⟨listed, _⟩ := List.getElem?_eq_some_iff.mp job
              rw [job] at taken
              obtain rfl := Option.some.inj taken
              simp only [if_pos listed]
              exact .take reader file phase job
      | acquiring fileId =>
          have calm : ¬ s.fatalError = true := by simp [order.calm]
          simp only [phase, if_neg calm] at taken
          cases free : s.available with
          | nil => simp [free] at taken
          | cons worker rest =>
              simp only [free] at taken
              obtain rfl := Option.some.inj taken
              exact .acquire reader fileId worker rest phase free
      | sending fileId worker blocks reads =>
          cases blocks with
          | cons block blocks =>
              simp only [phase] at taken
              rcases order.pushBlock reader (by rw [phase]; rfl) with
                ⟨waits, _⟩ | ⟨lane, pushed, accepted⟩
              · rw [waits] at taken
                cases taken
              · rw [accepted] at taken
                obtain rfl := Option.some.inj taken
                exact .push reader fileId worker block blocks reads lane phase pushed
          | nil =>
              cases reads with
              | cons read reads =>
                  simp only [phase] at taken
                  obtain rfl := Option.some.inj taken
                  exact .read reader fileId worker read reads phase
              | nil =>
                  simp only [phase] at taken
                  obtain rfl := Option.some.inj taken
                  exact .endReads reader fileId worker phase
      | completing fileId worker =>
          simp only [phase] at taken
          rcases order.pushBlock reader (by rw [phase]; rfl) with
            ⟨waits, _⟩ | ⟨lane, pushed, accepted⟩
          · rw [waits] at taken
            cases taken
          · rw [accepted] at taken
            obtain rfl := Option.some.inj taken
            exact .complete reader fileId worker lane phase pushed
      | finishing =>
          simp only [phase] at taken
          split at taken
          · rename_i last
            obtain rfl := Option.some.inj taken
            exact .leaveLast reader phase last
          · rename_i others
            obtain rfl := Option.some.inj taken
            exact .leave reader phase others
      | closing lanes =>
          cases lanes with
          | nil =>
              simp only [phase] at taken
              obtain rfl := Option.some.inj taken
              exact .endClosing reader phase
          | cons worker rest =>
              simp only [phase] at taken
              obtain rfl := Option.some.inj taken
              exact .close reader worker rest phase
      | finished => simp [phase] at taken
  | indexer worker =>
      simp only [step, indexerStep] at taken
      simp only [observe]
      cases ended : (s.indexers worker).exited with
      | true => simp [ended] at taken
      | false =>
          have alive : ¬ (s.indexers worker).exited = true := by simp [ended]
          rw [if_neg alive] at taken
          split at taken
          · rename_i block popped
            obtain rfl := Option.some.inj taken
            exact order.handleBlock ended popped
          · rename_i popped
            rcases BoundedByteQueue.pop_cases (order.running worker) with
              ⟨_, _, waits⟩ | ⟨empty, closed, drained⟩ | ⟨block, lane, took, first⟩
            · simp [waits] at taken
            · have noTransit : s.transit worker = [] := by
                rw [transit, popped, empty]
                rfl
              have outside : ¬ (s.indexers worker).document.isSome = true := by
                simp [order.document_eq_none noTransit closed]
              simp only [drained, if_neg outside] at taken
              obtain rfl := Option.some.inj taken
              exact .exit worker ended popped empty closed
            · simp only [took] at taken
              obtain rfl := Option.some.inj taken
              exact .pop worker block lane ended popped first
  | main =>
      simp only [step, mainStep] at taken
      simp only [observe]
      cases phase : s.main with
      | joiningReaders =>
          simp only [phase] at taken
          split at taken
          · rename_i finished
            obtain rfl := Option.some.inj taken
            exact .joinReaders phase finished
          · cases taken
      | joiningIndexers =>
          simp only [phase] at taken
          split at taken
          · rename_i exited
            obtain rfl := Option.some.inj taken
            exact .joinIndexers phase exited
          · cases taken
      | joined => simp [phase] at taken

end Orderly

end SearchEngine.Batch.Pipeline
