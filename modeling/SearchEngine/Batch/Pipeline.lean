import SearchEngine.Batch.BoundedByteQueue
import SearchEngine.Batch.Document
import SearchEngine.Index.DocumentCatalog
import SearchEngine.Lib.Machine
import Mathlib.Data.Fintype.Basic

/-!
# The threads of the batch builder

`build` starts readers and indexers. A reader takes the next document, acquires
an available indexer and sends it the blocks of the document through its lane;
an indexer handles the blocks of its lane and is available again after the last
one. Each action below is one locked section, one atomic operation or one local
stretch of a thread. Files can be read: metadata, opening and reads succeed.
-/

namespace SearchEngine.Batch

open SearchEngine.Lib SearchEngine.Index

/-- A file given to `build`. -/
structure SourceFile where
  metadata : DocumentMetadata
  content : List Byte
  deriving DecidableEq

/-- Where a reader thread is. -/
inductive Reader (builder : BatchIndexBuilder) where
  /-- Before `nextJob.fetch_add`. -/
  | idle
  /-- In `availableWorkers.acquire`. -/
  | acquiring (fileId : FileId)
  /-- Pushing parts of the current read; `reads` are still to be read. -/
  | sending (fileId : FileId) (worker : Fin builder.indexerThreads) (blocks : List FileBlock)
      (reads : List Block)
  /-- Pushing `Complete`. -/
  | completing (fileId : FileId) (worker : Fin builder.indexerThreads)
  /-- Before `readersRemaining.fetch_sub`. -/
  | finishing
  /-- In `closeLanes`, with the lanes still to be closed. -/
  | closing (lanes : List (Fin builder.indexerThreads))
  | finished

/-- An indexer thread. -/
structure Indexer where
  /-- The block `pop` returned, until it is handled. -/
  current : Option FileBlock := none
  document : Option DocumentAccumulator := none
  dictionary : LocalDictionary := ∅
  exited : Bool := false

/-- Where the thread that called `build` is. -/
inductive MainThread where
  | joiningReaders
  | joiningIndexers
  | joined
  deriving DecidableEq

/-- What the threads of `build` share, and the threads. -/
structure Pipeline (builder : BatchIndexBuilder) where
  nextJob : Nat
  readers : Fin builder.readerThreads → Reader builder
  lanes : Fin builder.indexerThreads → BoundedByteQueue FileBlock
  indexers : Fin builder.indexerThreads → Indexer
  /-- `workers_` of `AvailableWorkers`. -/
  available : List (Fin builder.indexerThreads)
  readersRemaining : Nat
  documentMetadata : List DocumentMetadata
  indexedFiles : Nat
  bytesRead : Nat
  /-- `fatalError` is set; `AvailableWorkers` is cancelled with it. -/
  fatalError : Bool
  main : MainThread

/-- The parts of a read as blocks of a document. -/
def partsOf (payloadSize : Nat) (fileId : FileId) (read : Block) : List FileBlock :=
  (readParts payloadSize read.isLastChunk read.data.length read.data).map fun part =>
    { kind := .data, fileId, isLastChunk := part.isLastChunk, data := part.data }

/-- The bytes of a document; a number beyond the list has none. -/
def contentOf (files : List SourceFile) (fileId : FileId) : List Byte :=
  (files[fileId]?).elim [] SourceFile.content

namespace Pipeline

variable {builder : BatchIndexBuilder}

/-- A thread moves on. -/
def setReader (s : Pipeline builder) (reader : Fin builder.readerThreads) (phase : Reader builder) :
    Pipeline builder :=
  { s with readers := Function.update s.readers reader phase }

/-- A lane after an operation. -/
def setLane (s : Pipeline builder) (worker : Fin builder.indexerThreads)
    (lane : BoundedByteQueue FileBlock) : Pipeline builder :=
  { s with lanes := Function.update s.lanes worker lane }

/-- An indexer moves on. -/
def setIndexer (s : Pipeline builder) (worker : Fin builder.indexerThreads) (indexer : Indexer) :
    Pipeline builder :=
  { s with indexers := Function.update s.indexers worker indexer }

/-- `setFatal` and the `cancelPipeline` it calls. -/
def setFatal (s : Pipeline builder) : Pipeline builder :=
  { s with fatalError := true, lanes := fun worker => (s.lanes worker).cancel }

/-- `lane.push`; the exception of `push` is fatal, a rejected block ends the reader. -/
def pushBlock (s : Pipeline builder) (reader : Fin builder.readerThreads)
    (worker : Fin builder.indexerThreads) (block : FileBlock) (next : Reader builder) :
    Option (Pipeline builder) :=
  match (s.lanes worker).push block block.weightBytes with
  | .tooHeavy => some (s.setFatal.setReader reader .finishing)
  | .wait => none
  | .rejected => some (s.setReader reader .finishing)
  | .pushed lane => some ((s.setLane worker lane).setReader reader next)

/-- One action of a reader thread. -/
def readerStep (files : List SourceFile) (reader : Fin builder.readerThreads)
    (s : Pipeline builder) : Option (Pipeline builder) :=
  match s.readers reader with
  | .idle =>
      match files[s.nextJob]? with
      | none => some ({ s with nextJob := s.nextJob + 1 }.setReader reader .finishing)
      | some file =>
          some ({ s with
            nextJob := s.nextJob + 1
            documentMetadata := s.documentMetadata.set s.nextJob file.metadata }.setReader reader
              (.acquiring s.nextJob))
  | .acquiring fileId =>
      if s.fatalError then some (s.setReader reader .finishing)
      else
        match s.available with
        | [] => none
        | worker :: rest =>
            some ({ s with available := rest }.setReader reader
              (.sending fileId worker [{ kind := .start, fileId }]
                (readBlocks (contentOf files fileId))))
  | .sending fileId worker (block :: blocks) reads =>
      s.pushBlock reader worker block (.sending fileId worker blocks reads)
  | .sending fileId worker [] (read :: reads) =>
      some ({ s with bytesRead := s.bytesRead + read.data.length }.setReader reader
        (.sending fileId worker (partsOf builder.payloadSize fileId read) reads))
  | .sending fileId worker [] [] => some (s.setReader reader (.completing fileId worker))
  | .completing fileId worker =>
      s.pushBlock reader worker { kind := .complete, fileId } .idle
  | .finishing =>
      if s.readersRemaining = 1 then
        some ({ s with readersRemaining := 0 }.setReader reader (.closing (List.finRange _)))
      else some ({ s with readersRemaining := s.readersRemaining - 1 }.setReader reader .finished)
  | .closing (worker :: rest) =>
      some ((s.setLane worker (s.lanes worker).close).setReader reader (.closing rest))
  | .closing [] => some (s.setReader reader .finished)
  | .finished => none

/-- The exception of an indexer: fatal, and the thread ends. -/
def failIndexer (s : Pipeline builder) (worker : Fin builder.indexerThreads) : Pipeline builder :=
  s.setFatal.setIndexer worker { s.indexers worker with current := none, exited := true }

/-- `availableWorkers.release`. -/
def release (s : Pipeline builder) (worker : Fin builder.indexerThreads) : Pipeline builder :=
  if s.fatalError then s else { s with available := s.available ++ [worker] }

/-- The `switch` of an indexer over the block it popped. -/
def handleBlock (oem : OemTable) (s : Pipeline builder) (worker : Fin builder.indexerThreads)
    (block : FileBlock) : Pipeline builder :=
  match block.kind, (s.indexers worker).document with
  | .start, none =>
      s.setIndexer worker
        { s.indexers worker with current := none, document := some { fileId := block.fileId } }
  | .start, some _ => s.failIndexer worker
  | .data, some document =>
      if document.fileId = block.fileId then
        s.setIndexer worker
          { s.indexers worker with
            current := none
            document := some (tokenizeBlock oem document ⟨block.data, block.isLastChunk⟩) }
      else s.failIndexer worker
  | .complete, some document =>
      if document.fileId = block.fileId then
        { s with indexedFiles := s.indexedFiles + 1 }.setIndexer worker
          { s.indexers worker with
            current := none
            document := none
            dictionary := commitDocument document (s.indexers worker).dictionary } |>.release worker
      else s.failIndexer worker
  | .abort, some document =>
      if document.fileId = block.fileId then
        s.setIndexer worker { s.indexers worker with current := none, document := none }
          |>.release worker
      else s.failIndexer worker
  | _, none => s.failIndexer worker

/-- One action of an indexer thread: handle the popped block, or pop the next. -/
def indexerStep (oem : OemTable) (worker : Fin builder.indexerThreads) (s : Pipeline builder) :
    Option (Pipeline builder) :=
  if (s.indexers worker).exited then none
  else
    match (s.indexers worker).current with
    | some block => some (s.handleBlock oem worker block)
    | none =>
        match (s.lanes worker).pop with
        | .wait => none
        | .ended =>
            if (s.indexers worker).document.isSome then some (s.failIndexer worker)
            else some (s.setIndexer worker { s.indexers worker with exited := true })
        | .popped block lane =>
            some ((s.setLane worker lane).setIndexer worker
              { s.indexers worker with current := some block })

/-- `joinable` of a reader thread that has returned. -/
def isFinished : Reader builder → Bool
  | .finished => true
  | _ => false

/-- `joinAll(readers); closeLanes(); joinAll(indexers)`. -/
def mainStep (s : Pipeline builder) : Option (Pipeline builder) :=
  match s.main with
  | .joiningReaders =>
      if ∀ reader, isFinished (s.readers reader) = true then
        some { s with main := .joiningIndexers, lanes := fun worker => (s.lanes worker).close }
      else none
  | .joiningIndexers =>
      if ∀ worker, (s.indexers worker).exited = true then some { s with main := .joined } else none
  | .joined => none

/-- The thread that takes the next action. -/
inductive Thread (builder : BatchIndexBuilder) where
  | reader (reader : Fin builder.readerThreads)
  | indexer (worker : Fin builder.indexerThreads)
  | main

/-- One action of the pipeline. -/
def step (oem : OemTable) (files : List SourceFile) (s : Pipeline builder) :
    Thread builder → Option (Pipeline builder)
  | .reader reader => s.readerStep files reader
  | .indexer worker => s.indexerStep oem worker
  | .main => s.mainStep

/-- The pipeline when its threads have been started. -/
def start (builder : BatchIndexBuilder) (files : List SourceFile) : Pipeline builder where
  nextJob := 0
  readers := fun _ => .idle
  lanes := fun _ => .new builder.laneCapacity
  indexers := fun _ => {}
  available := List.finRange builder.indexerThreads
  readersRemaining := builder.readerThreads
  documentMetadata := List.replicate files.length ⟨0, 0⟩
  indexedFiles := 0
  bytesRead := 0
  fatalError := false
  main := .joiningReaders

/-! ## History -/

/-- Where a document is: not taken, with a reader, on its way from a reader to a
worker, entirely with the worker, or in the dictionary of the worker. -/
inductive Place (builder : BatchIndexBuilder) where
  | waiting
  | held (reader : Fin builder.readerThreads)
  | sending (reader : Fin builder.readerThreads) (worker : Fin builder.indexerThreads)
  | sent (worker : Fin builder.indexerThreads)
  | committed (worker : Fin builder.indexerThreads)
  deriving DecidableEq

/-- What has happened to the documents. -/
structure History (builder : BatchIndexBuilder) where
  place : FileId → Place builder
  /-- The blocks of a document in the order the indexers handled them. -/
  handled : FileId → List FileBlock
  /-- The documents a worker committed, in order. -/
  commits : Fin builder.indexerThreads → List FileId

/-- Before the first action. -/
def History.empty : History builder := ⟨fun _ => .waiting, fun _ => [], fun _ => []⟩

/-- A worker handles a block of a document. -/
def History.handle (h : History builder) (worker : Fin builder.indexerThreads) (block : FileBlock) :
    History builder :=
  let handled := Function.update h.handled block.fileId (h.handled block.fileId ++ [block])
  if block.kind = .complete then
    { place := Function.update h.place block.fileId (.committed worker)
      handled := handled
      commits := Function.update h.commits worker (h.commits worker ++ [block.fileId]) }
  else { h with handled := handled }

/-- What an action does to the documents. -/
def observe (files : List SourceFile) (s : Pipeline builder) (thread : Thread builder)
    (h : History builder) : History builder :=
  match thread with
  | .reader reader =>
      match s.readers reader, s.available with
      | .idle, _ =>
          if s.nextJob < files.length then
            { h with place := Function.update h.place s.nextJob (.held reader) }
          else h
      | .acquiring fileId, worker :: _ =>
          { h with place := Function.update h.place fileId (.sending reader worker) }
      | .completing fileId worker, _ =>
          { h with place := Function.update h.place fileId (.sent worker) }
      | _, _ => h
  | .indexer worker =>
      match (s.indexers worker).current with
      | some block => h.handle worker block
      | none => h
  | .main => h

/-- The pipeline with the history of its documents. -/
def machine (oem : OemTable) (builder : BatchIndexBuilder) (files : List SourceFile) :
    Machine (Pipeline builder × History builder) (Thread builder) :=
  Machine.monitor ⟨step oem files⟩ (observe files)

end Pipeline

end SearchEngine.Batch
