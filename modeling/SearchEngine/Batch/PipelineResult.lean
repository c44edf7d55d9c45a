import SearchEngine.Batch.PipelineProgress

/-!
# What the pipeline has done

The dictionary of a worker is made by the documents it committed, in that order,
and the counters and metadata follow the documents taken and read. When the
threads are joined every document was committed by exactly one worker after all
of its blocks were handled in order.
-/

namespace SearchEngine.Batch.Pipeline

open SearchEngine.Lib SearchEngine.Index

variable {builder : BatchIndexBuilder} {oem : OemTable} {files : List SourceFile}
  {s after : Pipeline builder} {h later : History builder}

/-- A dictionary after documents were committed to it in a given order. -/
def commitDocuments (oem : OemTable) (payloadSize : Nat) (files : List SourceFile)
    (documents : List FileId) (dictionary : LocalDictionary) : LocalDictionary :=
  documents.foldl (fun committed fileId =>
    commitDocument (accumulate oem payloadSize fileId (contentOf files fileId)) committed)
    dictionary

/-- The bytes a reader still has to read for its document. -/
def unreadBytes (files : List SourceFile) : Reader builder → Nat
  | .acquiring fileId => (contentOf files fileId).length
  | .sending _ _ _ reads => (reads.map fun read => read.data.length).sum
  | _ => 0

/-- Dictionaries, metadata and counters follow the documents. -/
structure Tallied (oem : OemTable) (files : List SourceFile) (s : Pipeline builder)
    (h : History builder) : Prop where
  dictionary : ∀ worker, (s.indexers worker).dictionary =
    commitDocuments oem builder.payloadSize files (h.commits worker) ∅
  commits : ∀ worker fileId, fileId ∈ h.commits worker ↔
    fileId < files.length ∧ h.place fileId = .committed worker
  once : ∀ worker, (h.commits worker).Nodup
  metadata : ∀ fileId : Nat, s.documentMetadata[fileId]? =
    if fileId < s.nextJob then files[fileId]?.map SourceFile.metadata
    else (List.replicate files.length (⟨0, 0⟩ : DocumentMetadata))[fileId]?
  indexed : s.indexedFiles = ∑ worker, (h.commits worker).length
  bytes : s.bytesRead + ∑ reader, unreadBytes files (s.readers reader) +
      ((files.drop s.nextJob).map fun file => file.content.length).sum =
    (files.map fun file => file.content.length).sum

/-! ## Reads -/

theorem sum_length_readLoop (fuel : Nat) (content : List Byte)
    (enough : content.length / readBlockSize < fuel) :
    ((readLoop fuel content).map fun read => read.data.length).sum = content.length := by
  have positive : 0 < readBlockSize := by decide
  induction fuel generalizing content with
  | zero => exact absurd enough (Nat.not_lt_zero _)
  | succ fuel ih =>
      unfold readLoop
      split
      · cases content <;> simp
      · rename_i long
        have cut : content.length = (content.drop readBlockSize).length + readBlockSize := by
          rw [List.length_drop]
          omega
        have fewer : (content.drop readBlockSize).length / readBlockSize < fuel := by
          rw [cut, Nat.add_div_right _ positive] at enough
          omega
        rw [List.map_cons, List.sum_cons, ih _ fewer, List.length_take]
        omega

/-- The reads of a content cover it. -/
theorem sum_length_readBlocks (content : List Byte) :
    ((readBlocks content).map fun read => read.data.length).sum = content.length :=
  sum_length_readLoop _ _ (Nat.lt_succ_self _)

theorem unreadBytes_setReader (files : List SourceFile) (s : Pipeline builder) 
    (reader : Fin builder.readerThreads) (phase : Reader builder) :
    ∑ other, unreadBytes files ((s.setReader reader phase).readers other) +
        unreadBytes files (s.readers reader) =
      ∑ other, unreadBytes files (s.readers other) + unreadBytes files phase :=
  sum_changed_part s.readers reader phase (unreadBytes files)

/-! ## Every move keeps the tally -/

namespace Tallied

/-- A reader moves; neither dictionaries nor committed documents change. -/
theorem of_reader (tallied : Tallied oem files s h) {reader : Fin builder.readerThreads}
    {phase : Reader builder}
    (dictionaries : ∀ worker, (after.indexers worker).dictionary = (s.indexers worker).dictionary)
    (commits : later.commits = h.commits)
    (places : ∀ fileId < files.length, ∀ worker,
      later.place fileId = .committed worker ↔ h.place fileId = .committed worker)
    (metadata : ∀ fileId : Nat, after.documentMetadata[fileId]? =
      if fileId < after.nextJob then files[fileId]?.map SourceFile.metadata
      else (List.replicate files.length (⟨0, 0⟩ : DocumentMetadata))[fileId]?)
    (indexed : after.indexedFiles = s.indexedFiles)
    (readers : after.readers = (s.setReader reader phase).readers)
    (bytes : after.bytesRead + unreadBytes files phase +
        ((files.drop after.nextJob).map fun file => file.content.length).sum =
      s.bytesRead + unreadBytes files (s.readers reader) +
        ((files.drop s.nextJob).map fun file => file.content.length).sum) :
    Tallied oem files after later where
  dictionary worker := by
    rw [dictionaries, commits]
    exact tallied.dictionary worker
  commits worker fileId := by
    rw [commits, tallied.commits]
    exact and_congr_right fun listed => (places fileId listed worker).symm
  once := by
    rw [commits]
    exact tallied.once
  metadata := metadata
  indexed := by
    rw [indexed, commits]
    exact tallied.indexed
  bytes := by
    have sum := unreadBytes_setReader files s reader phase
    have total := tallied.bytes
    rw [readers]
    omega

/-- A move of a reader that reads nothing and takes no document. -/
theorem of_quietReader (tallied : Tallied oem files s h) {reader : Fin builder.readerThreads}
    {phase : Reader builder} (same : unreadBytes files phase = unreadBytes files (s.readers reader))
    (places : ∀ fileId < files.length, ∀ worker,
      later.place fileId = .committed worker ↔ h.place fileId = .committed worker)
    (dictionaries : ∀ worker, (after.indexers worker).dictionary = (s.indexers worker).dictionary)
    (commits : later.commits = h.commits)
    (jobs : after.nextJob = s.nextJob) (metadata : after.documentMetadata = s.documentMetadata)
    (indexed : after.indexedFiles = s.indexedFiles) (bytes : after.bytesRead = s.bytesRead)
    (readers : after.readers = (s.setReader reader phase).readers) :
    Tallied oem files after later := by
  refine tallied.of_reader dictionaries commits places ?_ indexed readers ?_
  · rw [metadata, jobs]
    exact tallied.metadata
  · rw [same, jobs, bytes]

/-- A move in which no reader takes part and nothing is committed. -/
theorem of_indexer (tallied : Tallied oem files s h)
    (dictionaries : ∀ worker, (after.indexers worker).dictionary = (s.indexers worker).dictionary)
    (commits : later.commits = h.commits) (places : later.place = h.place)
    (jobs : after.nextJob = s.nextJob) (metadata : after.documentMetadata = s.documentMetadata)
    (indexed : after.indexedFiles = s.indexedFiles) (bytes : after.bytesRead = s.bytesRead)
    (readers : after.readers = s.readers) : Tallied oem files after later where
  dictionary worker := by
    rw [dictionaries, commits]
    exact tallied.dictionary worker
  commits := by
    rw [commits, places]
    exact tallied.commits
  once := by
    rw [commits]
    exact tallied.once
  metadata := by
    rw [metadata, jobs]
    exact tallied.metadata
  indexed := by
    rw [indexed, commits]
    exact tallied.indexed
  bytes := by
    rw [bytes, readers, jobs]
    exact tallied.bytes

/-- A place that becomes another one that is not a dictionary. -/
theorem places_update {fileId : FileId} {place : Place builder}
    (before : ∀ worker, h.place fileId ≠ .committed worker)
    (now : ∀ worker, place ≠ .committed worker) (other : FileId)
    (worker : Fin builder.indexerThreads) :
    Function.update h.place fileId place other = .committed worker ↔
      h.place other = .committed worker := by
  by_cases same : other = fileId
  · rw [same, Function.update_self]
    exact iff_of_false (now worker) (before worker)
  · rw [Function.update_of_ne same]

/-- Committing a document appends it to its worker. -/
theorem commit (tallied : Tallied oem files s h) (order : Orderly oem files s h)
    {worker : Fin builder.indexerThreads} {block : FileBlock} {document : DocumentAccumulator}
    (current : (s.indexers worker).current = some block) (kind : block.kind = .complete)
    (opened : (s.indexers worker).document = some document) :
    Tallied oem files
      { ({ s with indexedFiles := s.indexedFiles + 1 }.setIndexer worker
          { s.indexers worker with
            current := none
            document := none
            dictionary := commitDocument document (s.indexers worker).dictionary }) with
        available := s.available ++ [worker] }
      (h.handle worker block) := by
  obtain ⟨listed, located, documentEq, rest, blocks⟩ := order.current current
  have whole : document =
      accumulate oem builder.payloadSize block.fileId (contentOf files block.fileId) := by
    obtain ⟨_, kinds⟩ := next_block_cases oem blocks
    rcases kinds with ⟨_, start⟩ | ⟨_, data⟩ | ⟨complete, _, _⟩
    · rw [kind] at start
      cases start
    · rw [kind] at data
      cases data
    · exact Option.some.inj (opened.symm.trans (documentEq.trans complete))
  have fresh : block.fileId ∉ h.commits worker := by
    intro old
    rw [((tallied.commits worker block.fileId).mp old).2] at located
    cases located
  rw [History.handle, if_pos kind]
  constructor
  case dictionary =>
    intro other
    by_cases same : other = worker
    · subst same
      refine (congrArg Indexer.dictionary ((indexers_setIndexer ..).trans (if_pos rfl))).trans ?_
      simp only [Function.update_self, commitDocuments, List.foldl_append, List.foldl_cons,
        List.foldl_nil]
      rw [whole, tallied.dictionary, commitDocuments]
    · refine (congrArg Indexer.dictionary ((indexers_setIndexer ..).trans (if_neg same))).trans ?_
      simp only [Function.update_of_ne same]
      exact tallied.dictionary other
  case commits =>
    intro other fileId
    simp only [Function.update_apply]
    by_cases sameFile : fileId = block.fileId
    · subst sameFile
      simp only [if_true, Place.committed.injEq]
      by_cases same : other = worker
      · subst same
        simp [listed]
      · simp only [if_neg same]
        refine iff_of_false (fun old => ?_) fun now => same now.2.symm
        rw [((tallied.commits other block.fileId).mp old).2] at located
        cases located
    · simp only [if_neg sameFile]
      rw [← tallied.commits]
      by_cases same : other = worker
      · subst same
        simp [sameFile]
      · simp [same]
  case once =>
    intro other
    by_cases same : other = worker
    · subst same
      simp only [Function.update_self]
      exact (tallied.once other).append (List.nodup_singleton _) (by simpa using fresh)
    · simp only [Function.update_of_ne same]
      exact tallied.once other
  case metadata => exact tallied.metadata
  case indexed =>
    have sum := sum_changed_part h.commits worker (h.commits worker ++ [block.fileId]) List.length
    rw [List.length_append, List.length_singleton] at sum
    have total := tallied.indexed
    change s.indexedFiles + 1 =
      ∑ other, (Function.update h.commits worker (h.commits worker ++ [block.fileId]) other).length
    omega
  case bytes => exact tallied.bytes

/-- Every move keeps the tally. -/
theorem kept (tallied : Tallied oem files s h) (order : Orderly oem files s h)
    (moved : Move oem files s h after later) : Tallied oem files after later := by
  cases moved with
  | take reader file idle job =>
      obtain ⟨listed, fileEq⟩ := List.getElem?_eq_some_iff.mp job
      have waits := order.toDocuments.waiting listed le_rfl
      refine tallied.of_reader (fun _ => rfl) rfl
        (fun fileId _ worker => places_update (by simp [waits]) (by simp) fileId worker)
        (fun fileId => ?_) rfl rfl ?_
      · change (s.documentMetadata.set s.nextJob file.metadata)[fileId]? =
          if fileId < s.nextJob + 1 then files[fileId]?.map SourceFile.metadata
          else (List.replicate files.length (⟨0, 0⟩ : DocumentMetadata))[fileId]?
        rw [List.getElem?_set]
        by_cases same : s.nextJob = fileId
        · have stored := tallied.metadata s.nextJob
          rw [if_neg (Nat.lt_irrefl _), List.getElem?_replicate, if_pos listed] at stored
          obtain ⟨inList, _⟩ := List.getElem?_eq_some_iff.mp stored
          subst same
          rw [if_pos rfl, if_pos (Nat.lt_succ_self _), job]
          simp [inList]
        · rw [if_neg same, tallied.metadata]
          by_cases earlier : fileId < s.nextJob
          · rw [if_pos earlier, if_pos (by omega)]
          · rw [if_neg earlier, if_neg (by omega)]
      · have dropped := sum_drop_of_getElem? job fun file => file.content.length
        have content : contentOf files s.nextJob = file.content := by
          rw [contentOf, job]
          rfl
        simp only [setReader, idle, unreadBytes, content, dropped]
        omega
  | runOut reader idle none =>
      have beyond := List.getElem?_eq_none_iff.mp none
      refine tallied.of_reader (fun _ => rfl) rfl (fun _ _ _ => .rfl) (fun fileId => ?_) rfl rfl ?_
      · change s.documentMetadata[fileId]? =
          if fileId < s.nextJob + 1 then files[fileId]?.map SourceFile.metadata
          else (List.replicate files.length (⟨0, 0⟩ : DocumentMetadata))[fileId]?
        rw [tallied.metadata]
        by_cases earlier : fileId < s.nextJob
        · rw [if_pos earlier, if_pos (by omega)]
        · rw [if_neg earlier]
          split
          · have outside : ¬ fileId < files.length := by omega
            rw [List.getElem?_replicate, if_neg outside, List.getElem?_eq_none (by omega)]
            rfl
          · rfl
      · have later : files.drop (s.nextJob + 1) = [] := List.drop_eq_nil_of_le (by omega)
        simp only [setReader, later, List.drop_eq_nil_of_le beyond, idle, unreadBytes]
  | acquire reader fileId worker rest waits free =>
      obtain ⟨_, held⟩ := order.acquiring reader fileId waits
      refine tallied.of_quietReader ?_
        (fun other _ lane => places_update (by simp [held]) (by simp) other lane) (fun _ => rfl) rfl
        rfl rfl rfl rfl rfl
      rw [waits]
      exact sum_length_readBlocks _
  | push reader fileId worker block blocks reads lane sends pushed =>
      refine tallied.of_quietReader ?_ (fun _ _ _ => .rfl) (fun _ => rfl) rfl rfl rfl rfl rfl rfl
      rw [sends]
      rfl
  | read reader fileId worker read reads sends =>
      refine tallied.of_reader (fun _ => rfl) rfl (fun _ _ _ => .rfl) tallied.metadata rfl rfl ?_
      simp only [setReader, sends, unreadBytes, List.map_cons, List.sum_cons]
      omega
  | endReads reader fileId worker sends =>
      refine tallied.of_quietReader ?_ (fun _ _ _ => .rfl) (fun _ => rfl) rfl rfl rfl rfl rfl rfl
      rw [sends]
      rfl
  | complete reader fileId worker lane completes pushed =>
      have sending := (order.sender reader fileId worker _ (by rw [completes]; rfl)).2
      refine tallied.of_quietReader ?_
        (fun other _ lane => places_update (by simp [sending]) (by simp) other lane) (fun _ => rfl)
        rfl rfl rfl rfl rfl rfl
      rw [completes]
      rfl
  | leave reader finishing others =>
      refine tallied.of_quietReader ?_ (fun _ _ _ => .rfl) (fun _ => rfl) rfl rfl rfl rfl rfl rfl
      rw [finishing]
      rfl
  | leaveLast reader finishing last =>
      refine tallied.of_quietReader ?_ (fun _ _ _ => .rfl) (fun _ => rfl) rfl rfl rfl rfl rfl rfl
      rw [finishing]
      rfl
  | close reader worker rest closing =>
      refine tallied.of_quietReader ?_ (fun _ _ _ => .rfl) (fun _ => rfl) rfl rfl rfl rfl rfl rfl
      rw [closing]
      rfl
  | endClosing reader closing =>
      refine tallied.of_quietReader ?_ (fun _ _ _ => .rfl) (fun _ => rfl) rfl rfl rfl rfl rfl rfl
      rw [closing]
      rfl
  | pop worker block lane alive free popped =>
      refine tallied.of_indexer (fun other => ?_) rfl rfl rfl rfl rfl rfl rfl
      rw [indexers_setIndexer]
      split
      · rename_i same
        rw [same]
      · rfl
  | startDocument worker block alive current kind closed =>
      rw [History.handle, if_neg (by simp [kind])]
      refine tallied.of_indexer (fun other => ?_) rfl rfl rfl rfl rfl rfl rfl
      rw [indexers_setIndexer]
      split
      · rename_i same
        rw [same]
      · rfl
  | tokenize worker block document alive current kind opened =>
      rw [History.handle, if_neg (by simp [kind])]
      refine tallied.of_indexer (fun other => ?_) rfl rfl rfl rfl rfl rfl rfl
      rw [indexers_setIndexer]
      split
      · rename_i same
        rw [same]
      · rfl
  | commit worker block document alive current kind opened =>
      exact tallied.commit order current kind opened
  | exit worker alive free empty closed =>
      refine tallied.of_indexer (fun other => ?_) rfl rfl rfl rfl rfl rfl rfl
      rw [indexers_setIndexer]
      split
      · rename_i same
        rw [same]
      · rfl
  | joinReaders joining finished =>
      exact tallied.of_indexer (fun _ => rfl) rfl rfl rfl rfl rfl rfl rfl
  | joinIndexers joining exited =>
      exact tallied.of_indexer (fun _ => rfl) rfl rfl rfl rfl rfl rfl rfl

/-- The threads have just been started. -/
theorem initial (oem : OemTable) (builder : BatchIndexBuilder) (files : List SourceFile) :
    Tallied oem files (start builder files) History.empty where
  dictionary _ := rfl
  commits _ _ := iff_of_false List.not_mem_nil fun placed => by cases placed.2
  once _ := List.nodup_nil
  metadata _ := (if_neg (Nat.not_lt_zero _)).symm
  indexed := by simp [start, History.empty]
  bytes := by simp [start, unreadBytes]

end Tallied

/-! ## Joined -/

/-- When the threads are joined the readers are finished. -/
theorem Orderly.finished_of_joined (order : Orderly oem files s h) (joined : s.main = .joined)
    (reader : Fin builder.readerThreads) : s.readers reader = .finished := by
  have done := (order.joining (by simp [joined])).1 reader
  cases phase : s.readers reader <;> simp [phase, isFinished] at done ⊢

/-- When the threads are joined every document was taken. -/
theorem Orderly.taken_of_joined (order : Orderly oem files s h) (joined : s.main = .joined) :
    files.length ≤ s.nextJob :=
  order.exhausted ⟨0, builder.hasReader⟩ (by rw [order.finished_of_joined joined]; rfl)

/-- When the threads are joined every document is in a dictionary. -/
theorem Orderly.committed_of_joined (order : Orderly oem files s h) (joined : s.main = .joined)
    {fileId : FileId} (listed : fileId < files.length) :
    ∃ worker, h.place fileId = .committed worker := by
  have exited := order.joined joined
  have settled := order.settled fileId listed
  have phases := order.finished_of_joined joined
  cases located : h.place fileId with
  | waiting =>
      have untaken := ((settled_waiting located).mp settled).1
      exact absurd ((order.taken_of_joined joined).trans untaken) (Nat.not_le.mpr listed)
  | held reader =>
      have acquires := order.toDocuments.acquires_of_held listed located
      rw [phases] at acquires
      cases acquires
  | sending reader worker =>
      obtain ⟨_, sends⟩ := order.toDocuments.sends_of_sending listed located
      rw [phases] at sends
      cases sends
  | sent worker =>
      obtain ⟨_, _, _, last, member, _⟩ := (settled_sent located).mp settled
      rw [(order.exited worker (exited worker)).2] at member
      cases member
  | committed worker => exact ⟨worker, rfl⟩

/-- When the threads are joined the blocks of every document were handled in order. -/
theorem Orderly.handled_of_joined (order : Orderly oem files s h) (joined : s.main = .joined)
    {fileId : FileId} (listed : fileId < files.length) :
    h.handled fileId = blocksOf builder files fileId := by
  obtain ⟨worker, placed⟩ := order.committed_of_joined joined listed
  exact ((settled_committed placed).mp (order.settled fileId listed)).2

/-- When the threads are joined the workers have committed every document once. -/
theorem Tallied.commits_perm (tallied : Tallied oem files s h) (order : Orderly oem files s h)
    (joined : s.main = .joined) :
    ((List.finRange builder.indexerThreads).flatMap h.commits).Perm
      (List.range files.length) := by
  rw [List.perm_ext_iff_of_nodup ?_ List.nodup_range]
  · intro fileId
    simp only [List.mem_flatMap, List.mem_finRange, true_and, List.mem_range, tallied.commits]
    constructor
    · rintro ⟨_, listed, _⟩
      exact listed
    · intro listed
      obtain ⟨worker, placed⟩ := order.committed_of_joined joined listed
      exact ⟨worker, listed, placed⟩
  · rw [List.nodup_flatMap]
    refine ⟨fun worker _ => tallied.once worker, ?_⟩
    refine (List.nodup_finRange _).imp fun different fileId first second => ?_
    have one := ((tallied.commits _ fileId).mp first).2
    have two := ((tallied.commits _ fileId).mp second).2
    exact different (Place.committed.inj (one.symm.trans two))

/-- When the threads are joined the metadata of every file is recorded. -/
theorem Tallied.metadata_of_joined (tallied : Tallied oem files s h) (order : Orderly oem files s h)
    (joined : s.main = .joined) : s.documentMetadata = files.map SourceFile.metadata := by
  have out := order.taken_of_joined joined
  apply List.ext_getElem?
  intro fileId
  rw [tallied.metadata, List.getElem?_map]
  split
  · rfl
  · rw [List.getElem?_replicate, if_neg (by omega), List.getElem?_eq_none (by omega)]
    rfl

/-- When the threads are joined every file is counted. -/
theorem Tallied.indexed_of_joined (tallied : Tallied oem files s h) (order : Orderly oem files s h)
    (joined : s.main = .joined) : s.indexedFiles = files.length := by
  have committed := (tallied.commits_perm order joined).length_eq
  rw [List.length_flatMap, List.length_range] at committed
  rw [tallied.indexed, ← committed, ← List.sum_ofFn, List.ofFn_eq_map]

/-- When the threads are joined every byte was read. -/
theorem Tallied.bytes_of_joined (tallied : Tallied oem files s h) (order : Orderly oem files s h)
    (joined : s.main = .joined) :
    s.bytesRead = (files.map fun file => file.content.length).sum := by
  have none : ∑ reader, unreadBytes files (s.readers reader) = 0 := by
    refine Finset.sum_eq_zero fun reader _ => ?_
    rw [order.finished_of_joined joined]
    rfl
  have total := tallied.bytes
  rw [none, List.drop_eq_nil_of_le (order.taken_of_joined joined)] at total
  exact total

end SearchEngine.Batch.Pipeline
