import SearchEngine.Index.ReferenceTokens

/-!
# Documents of the batch builder

A reader cuts each 64 KiB read into parts of the payload size and sends a
document as `Start`, data blocks and `Complete`. An indexer counts the words of
the blocks with the carry of the document and commits the saturated counts to
its dictionary. The counts of a document depend neither on the payload size nor
on the worker.
-/

namespace SearchEngine.Batch

open SearchEngine.Lib SearchEngine.Index

/-! ## Options -/

/-- `BatchIndexOptions`. -/
structure BatchIndexOptions where
  readerThreads : Nat := 1
  indexerThreads : Nat := 0
  queueMemoryBytes : Nat := 256 * 1024 * 1024

/-- `BatchIndexBuilder::resolveIndexerThreads`. -/
def resolveIndexerThreads (hardwareConcurrency configuredThreads : Nat) : Nat :=
  if configuredThreads ≠ 0 then configuredThreads
  else if hardwareConcurrency = 0 then 1 else hardwareConcurrency

theorem resolveIndexerThreads_pos (hardwareConcurrency configuredThreads : Nat) :
    0 < resolveIndexerThreads hardwareConcurrency configuredThreads := by
  unfold resolveIndexerThreads
  split
  · omega
  · split <;> omega

/-- A `BatchIndexBuilder` with the options its constructor has adjusted. -/
structure BatchIndexBuilder where
  readerThreads : Nat
  indexerThreads : Nat
  queueMemoryBytes : Nat
  hasReader : 0 < readerThreads
  hasIndexer : 0 < indexerThreads
  memoryCoversIndexers : indexerThreads ≤ queueMemoryBytes

namespace BatchIndexBuilder

/-- The constructor. -/
def new (hardwareConcurrency : Nat) (options : BatchIndexOptions) : BatchIndexBuilder where
  readerThreads := max 1 options.readerThreads
  indexerThreads := resolveIndexerThreads hardwareConcurrency options.indexerThreads
  queueMemoryBytes := max (resolveIndexerThreads hardwareConcurrency options.indexerThreads)
    (max 1 options.queueMemoryBytes)
  hasReader := by omega
  hasIndexer := resolveIndexerThreads_pos _ _
  memoryCoversIndexers := Nat.le_max_left _ _

/-- `laneCapacity` of `build`. -/
def laneCapacity (builder : BatchIndexBuilder) : Nat :=
  max 1 (builder.queueMemoryBytes / builder.indexerThreads)

/-- `payloadSize` of `build`. -/
def payloadSize (builder : BatchIndexBuilder) : Nat := min readBlockSize builder.laneCapacity

theorem laneCapacity_pos (builder : BatchIndexBuilder) : 0 < builder.laneCapacity :=
  Nat.lt_of_lt_of_le Nat.one_pos (Nat.le_max_left _ _)

theorem payloadSize_pos (builder : BatchIndexBuilder) : 0 < builder.payloadSize :=
  Nat.lt_min.mpr ⟨by decide, builder.laneCapacity_pos⟩

theorem payloadSize_le (builder : BatchIndexBuilder) : builder.payloadSize ≤ builder.laneCapacity :=
  Nat.min_le_right _ _

end BatchIndexBuilder

/-! ## Blocks -/

/-- `BlockKind`. -/
inductive BlockKind where
  | start
  | data
  | complete
  | abort
  deriving DecidableEq

/-- `FileBlock`. -/
structure FileBlock where
  kind : BlockKind
  fileId : FileId
  isLastChunk : Bool := false
  data : List Byte := []
  deriving DecidableEq

/-- The weight a block is pushed with. -/
def FileBlock.weightBytes (block : FileBlock) : Nat :=
  match block.kind with
  | .data => block.data.length
  | _ => 1

/-- The part loop over one read; it ends within the given number of parts. -/
def readParts (payloadSize : Nat) (isLastRead : Bool) : Nat → List Byte → List Block
  | 0, _ => []
  | fuel + 1, rest =>
      if rest.isEmpty then []
      else
        ⟨rest.take payloadSize, isLastRead && decide (rest.length ≤ payloadSize)⟩ ::
          readParts payloadSize isLastRead fuel (rest.drop payloadSize)

/-- The parts of every read of a content. -/
def dataBlocks (payloadSize : Nat) (content : List Byte) : List Block :=
  (readBlocks content).flatMap fun read =>
    readParts payloadSize read.isLastChunk read.data.length read.data

/-- The blocks a reader pushes for a document. -/
def documentBlocks (payloadSize : Nat) (fileId : FileId) (content : List Byte) : List FileBlock :=
  { kind := .start, fileId } ::
    ((dataBlocks payloadSize content).map fun block =>
      { kind := .data, fileId, isLastChunk := block.isLastChunk, data := block.data }) ++
    [{ kind := .complete, fileId }]

/-! ## Indexing -/

/-- `Posting` of a local dictionary. -/
structure Posting where
  fileId : FileId
  cnt : UInt16
  deriving DecidableEq

/-- `LocalDictionary`. -/
abbrev LocalDictionary := SortedMap Word (List Posting)

/-- `DocumentAccumulator`. -/
structure DocumentAccumulator where
  fileId : FileId
  frequencies : SortedMap Word Nat := ∅
  carry : List Byte := []

/-- `++document.frequencies[word]` over the words of raw tokens. -/
def addTokens (oem : OemTable) (frequencies : SortedMap Word Nat) (tokens : List (List Byte)) :
    SortedMap Word Nat :=
  (tokens.filterMap (wordOf oem)).foldl (fun counted word =>
    counted.insert word ((counted.find? word).getD 0 + 1)) frequencies

/-- `tokenizeBlock`. -/
def tokenizeBlock (oem : OemTable) (document : DocumentAccumulator) (block : Block) :
    DocumentAccumulator :=
  { document with
    frequencies := addTokens oem document.frequencies (tokenizeBuffer document.carry block).1
    carry := (tokenizeBuffer document.carry block).2 }

/-- `commitDocument` for one entry of the frequencies. -/
def commitWord (fileId : FileId) (dictionary : LocalDictionary) (entry : Word × Nat) :
    LocalDictionary :=
  dictionary.insert entry.1
    ((dictionary.find? entry.1).getD [] ++ [⟨fileId, saturateCount entry.2⟩])

/-- `commitDocument`. -/
def commitDocument (document : DocumentAccumulator) (dictionary : LocalDictionary) :
    LocalDictionary :=
  document.frequencies.entries.foldl (commitWord document.fileId) dictionary

/-- The accumulator of a document after the blocks of its content. -/
def accumulate (oem : OemTable) (payloadSize : Nat) (fileId : FileId) (content : List Byte) :
    DocumentAccumulator :=
  (dataBlocks payloadSize content).foldl (tokenizeBlock oem) { fileId }

/-! ## The counts of a document -/

theorem addTokens_append (oem : OemTable) (frequencies : SortedMap Word Nat)
    (first second : List (List Byte)) :
    addTokens oem frequencies (first ++ second) =
      addTokens oem (addTokens oem frequencies first) second := by
  rw [addTokens, List.filterMap_append, List.foldl_append]
  rfl

/-- Counting block by block counts the tokens of all blocks. -/
theorem frequencies_foldl_tokenizeBlock (oem : OemTable) (document : DocumentAccumulator)
    (blocks : List Block) :
    (blocks.foldl (tokenizeBlock oem) document).frequencies =
      addTokens oem document.frequencies (tokenizeBlocks document.carry blocks) := by
  induction blocks generalizing document with
  | nil => rfl
  | cons block rest ih =>
      rw [List.foldl_cons, ih, tokenizeBlocks, addTokens_append]
      rfl

@[simp] theorem fileId_foldl_tokenizeBlock (oem : OemTable) (document : DocumentAccumulator)
    (blocks : List Block) :
    (blocks.foldl (tokenizeBlock oem) document).fileId = document.fileId := by
  induction blocks generalizing document with
  | nil => rfl
  | cons block rest ih => exact ih (tokenizeBlock oem document block)

/-- The parts of a read are a cut of the read. -/
theorem readParts_eq_splitBlock {payloadSize : Nat} (isLastRead : Bool) (fuel : Nat)
    {data : List Byte} (positive : 0 < payloadSize) (filled : data ≠ [])
    (enough : data.length ≤ fuel) :
    ∃ parts, parts ≠ [] ∧ parts.flatten = data ∧
      readParts payloadSize isLastRead fuel data = splitBlock isLastRead parts := by
  induction fuel generalizing data with
  | zero => exact absurd (List.length_eq_zero_iff.mp (Nat.le_zero.mp enough)) filled
  | succ fuel ih =>
      have notEmpty : data.isEmpty = false := by simpa using filled
      rw [readParts, notEmpty, if_neg Bool.false_ne_true]
      by_cases fits : data.length ≤ payloadSize
      · refine ⟨[data], List.cons_ne_nil _ _, by simp, ?_⟩
        rw [List.take_of_length_le fits, List.drop_eq_nil_of_le fits, decide_eq_true fits,
          Bool.and_true]
        cases fuel <;> rfl
      · have restFilled : data.drop payloadSize ≠ [] := by
          rw [ne_eq, List.drop_eq_nil_iff]
          exact fits
        have restEnough : (data.drop payloadSize).length ≤ fuel := by
          rw [List.length_drop]
          omega
        obtain ⟨parts, partsFilled, flattened, cut⟩ := ih restFilled restEnough
        refine ⟨data.take payloadSize :: parts, List.cons_ne_nil _ _, ?_, ?_⟩
        · rw [List.flatten_cons, flattened, List.take_append_drop]
        · rw [cut, decide_eq_false fits, Bool.and_false]
          cases parts with
          | nil => exact absurd rfl partsFilled
          | cons next others => rfl

theorem data_ne_nil_of_mem_readLoop {fuel : Nat} {content : List Byte} {block : Block}
    (member : block ∈ readLoop fuel content) : block.data ≠ [] := by
  induction fuel generalizing content with
  | zero => cases member
  | succ fuel ih =>
      unfold readLoop at member
      split at member
      · split at member
        · cases member
        · rename_i filled
          obtain rfl := List.mem_singleton.mp member
          simpa using filled
      · rename_i long
        rcases List.mem_cons.mp member with first | later
        · subst first
          intro empty
          rcases List.take_eq_nil_iff.mp empty with none | nothing
          · cases none
          · rw [nothing] at long
            exact long (by decide)
        · exact ih later

/-- Cutting the reads into parts leaves the tokens of the document. -/
theorem tokenizeBlocks_dataBlocks {payloadSize : Nat} (content : List Byte)
    (positive : 0 < payloadSize) :
    tokenizeBlocks [] (dataBlocks payloadSize content) = tokenizeBlocks [] (readBlocks content) := by
  have cut : ∀ (reads : List Block) (carry : List Byte), (∀ read ∈ reads, read.data ≠ []) →
      tokenizeBlocks carry (reads.flatMap fun read =>
        readParts payloadSize read.isLastChunk read.data.length read.data) =
        tokenizeBlocks carry reads := by
    intro reads
    induction reads with
    | nil => exact fun _ _ => rfl
    | cons read rest ih =>
        intro carry filled
        obtain ⟨parts, partsFilled, flattened, split⟩ := readParts_eq_splitBlock read.isLastChunk
          read.data.length positive (filled read List.mem_cons_self) le_rfl
        rw [List.flatMap_cons, split, tokenizeBlocks_append_split _ _ _ partsFilled, flattened,
          tokenizeBlocks, ih _ fun other member => filled other (List.mem_cons_of_mem _ member)]
        rfl
  exact cut _ _ fun read member => data_ne_nil_of_mem_readLoop member

/-- The batch builder counts the words `fileIndexing` counts. -/
theorem frequencies_accumulate (oem : OemTable) {payloadSize : Nat} (fileId : FileId)
    (content : List Byte) (positive : 0 < payloadSize) :
    (accumulate oem payloadSize fileId content).frequencies = frequencies oem content := by
  rw [accumulate, frequencies_foldl_tokenizeBlock, tokenizeBlocks_dataBlocks content positive]
  rfl

@[simp] theorem fileId_accumulate (oem : OemTable) (payloadSize : Nat) (fileId : FileId)
    (content : List Byte) : (accumulate oem payloadSize fileId content).fileId = fileId :=
  fileId_foldl_tokenizeBlock ..

/-- A document adds one saturated count to the list of each of its words. -/
theorem find?_commitDocument (document : DocumentAccumulator) (dictionary : LocalDictionary)
    (word : Word) :
    (commitDocument document dictionary).find? word =
      match document.frequencies.find? word with
      | none => dictionary.find? word
      | some count => some ((dictionary.find? word).getD [] ++
          [⟨document.fileId, saturateCount count⟩]) := by
  have folded : ∀ (entries : List (Word × Nat)) (start : LocalDictionary),
      (entries.map Prod.fst).Nodup →
      (entries.foldl (commitWord document.fileId) start).find? word =
        match SortedMap.findEntry word entries with
        | none => start.find? word
        | some count => some ((start.find? word).getD [] ++
            [⟨document.fileId, saturateCount count⟩]) := by
    intro entries
    induction entries with
    | nil => exact fun _ _ => rfl
    | cons entry rest ih =>
        intro start distinct
        obtain ⟨fresh, restDistinct⟩ := List.nodup_cons.mp distinct
        rw [List.foldl_cons, ih _ restDistinct, SortedMap.findEntry_cons]
        by_cases same : entry.1 = word
        · have absent : SortedMap.findEntry word rest = none := by
            by_contra present
            obtain ⟨count, found⟩ := Option.ne_none_iff_exists'.mp present
            exact fresh (List.mem_map.mpr
              ⟨_, SortedMap.mem_of_findEntry_eq_some found, same.symm⟩)
          rw [absent, if_pos same]
          simp [commitWord, same]
        · rw [if_neg same]
          simp [commitWord, same]
  exact folded _ dictionary (SortedMap.keys_nodup _)

end SearchEngine.Batch
