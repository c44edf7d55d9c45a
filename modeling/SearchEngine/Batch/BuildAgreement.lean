import SearchEngine.Batch.ScheduleIndependence
import SearchEngine.Index.BatchInstall
import SearchEngine.Index.FirstUpdate

/-!
# The two builds of an index

A new index is built by an update, file by file through the strand, or by the batch
builder and an installation. Both number the files by their places in the list. The
update adds a count to a 16-bit slot, where it wraps around, the batch builder
saturates, so the two agree exactly when every count survives both.
-/

namespace SearchEngine.Batch

open SearchEngine.Lib SearchEngine.Index

/-- The snapshot lists the count of a word in a document. -/
def BatchIndexSnapshot.Counts (snapshot : BatchIndexSnapshot) (word : Word) (fileId : FileId)
    (cnt : UInt16) : Prop :=
  ∃ (id : Nat) (postings : List Posting), snapshot.idToWord[id]? = some word ∧
    snapshot.postings[id]? = some postings ∧ ⟨fileId, cnt⟩ ∈ postings

/-- What `installBatchSnapshot` takes over: the word tables and the lists as they are. -/
def BatchIndexSnapshot.forInstall (snapshot : BatchIndexSnapshot) (numbered : snapshot.Numbered) :
    BatchSnapshot where
  documentMetadata := snapshot.documentMetadata
  wordIds := ⟨snapshot.wordToId, snapshot.idToWord, fun found => (numbered.numbered _ _).mp found⟩
  postings := snapshot.postings.map fun postings =>
    .ofList (postings.map fun posting => (posting.fileId, posting.cnt))
  wordRefs := snapshot.wordRefs

/-- The installed index answers with the listed counts. -/
theorem answer_forInstall {files : List SourceFile} {count : FileId → Word → Nat}
    {snapshot : BatchIndexSnapshot} (describes : SnapshotOf files count snapshot) (word : Word)
    (fileId : FileId) (cnt : UInt16) :
    (snapshot.forInstall describes.toNumbered).installed.answer word fileId = some cnt ↔
      snapshot.Counts word fileId cnt := by
  have active : ∀ wordId : WordId,
      (snapshot.forInstall describes.toNumbered).installed.activePosting wordId =
        (snapshot.forInstall describes.toNumbered).postings.getD wordId ∅ := by
    intro wordId
    rw [InvertedIndex.activePosting]
    split
    · rename_i wordless
      have postings : (snapshot.forInstall describes.toNumbered).postings = [] :=
        List.isEmpty_iff.mp wordless
      rw [postings]
      rfl
    · rfl
  have stored : ∀ postings ∈ snapshot.postings,
      (SortedMap.ofList (postings.map fun posting => (posting.fileId, posting.cnt))).find? fileId = some cnt ↔
        ⟨fileId, cnt⟩ ∈ postings := by
    intro postings member
    have distinct : ((postings.map fun posting => (posting.fileId, posting.cnt)).map Prod.fst).Nodup := by
      rw [List.map_map, List.Nodup, List.pairwise_map]
      exact (describes.sorted postings member).imp fun less => Nat.ne_of_lt less
    rw [SortedMap.find?_ofList_eq_some_iff distinct, List.mem_map]
    constructor
    · rintro ⟨posting, listed, same⟩
      obtain ⟨rfl, rfl⟩ := Prod.mk.inj same
      exact listed
    · exact fun listed => ⟨_, listed, rfl⟩
  rw [InvertedIndex.answer_eq, Option.bind_eq_some_iff]
  refine exists_congr fun id => ?_
  rw [active, BatchIndexSnapshot.forInstall, List.getD_eq_getElem?_getD, List.getElem?_map]
  have number : (snapshot.forInstall describes.toNumbered).installed.wordIds.tryGet word = some id ↔
      snapshot.idToWord[id]? = some word := describes.numbered word id
  cases found : snapshot.postings[id]? with
  | none =>
      rw [Option.map_none, Option.getD_none]
      simp
  | some postings =>
      rw [Option.map_some, Option.getD_some, stored postings (List.mem_of_getElem? found)]
      constructor
      · rintro ⟨numbered, listed⟩
        exact ⟨postings, number.mp numbered, rfl, listed⟩
      · rintro ⟨_, listedWord, same, listed⟩
        obtain rfl := Option.some.inj same
        exact ⟨number.mpr listedWord, listed⟩

/-- An installation that returns leaves the installed index. -/
theorem index_of_returned {faults : InstallFaults} {store : IndexStore} {snapshot : BatchSnapshot}
    {paths : List Path} (returned : (installBatchSnapshot faults store snapshot paths).2 = .returned) :
    (installBatchSnapshot faults store snapshot paths).1.index = snapshot.installed := by
  unfold installBatchSnapshot at returned ⊢
  split at returned
  · cases returned
  · split at returned
    · cases returned
    · rfl

/-- A successful build returns a snapshot of the words the indexers find. -/
theorem snapshotOf_builds {oem : OemTable} {sortRuns : StdSort TermRun.word}
    {sortPostings : StdSort Posting.fileId} {builder : BatchIndexBuilder} {files : List SourceFile}
    {snapshot : BatchIndexSnapshot}
    (built : BuildsTo oem sortRuns sortPostings builder files (.ok snapshot)) :
    SnapshotOf files (fun fileId => occurrences oem (contentOf files fileId)) snapshot := by
  unfold BuildsTo at built
  split at built
  · cases built
  · obtain ⟨schedule, final, done, joined, result⟩ := built
    rw [Pipeline.finish_of_joined sortRuns sortPostings done joined] at result
    split at result
    · obtain rfl := Except.ok.inj result
      exact snapshotOf_expectedSnapshot oem files
    · cases result

/-! ## The two builds -/

variable {oem : OemTable} {listed : List Path} {stat : Stat} {bytes : Path → List Byte}
  {metadata : Path → DocumentMetadata} {diff : CatalogDiff}

/-- The files of a list, as the batch builder reads them. -/
def sourceFiles (metadata : Path → DocumentMetadata) (bytes : Path → List Byte) (listed : List Path) :
    List SourceFile :=
  listed.map fun path => ⟨metadata path, bytes path⟩

theorem contentOf_sourceFiles {index : Nat} {path : Path} (here : listed[index]? = some path) :
    contentOf (sourceFiles metadata bytes listed) index = bytes path := by
  rw [contentOf, sourceFiles, List.getElem?_map, here]
  rfl

/-- A build lists the saturated counts of the files, numbered by their places. -/
theorem counts_sourceFiles {sortRuns : StdSort TermRun.word} {sortPostings : StdSort Posting.fileId}
    {builder : BatchIndexBuilder} {snapshot : BatchIndexSnapshot}
    (built : BuildsTo oem sortRuns sortPostings builder (sourceFiles metadata bytes listed)
      (.ok snapshot)) (word : Word) (fileId : FileId) (cnt : UInt16) :
    snapshot.Counts word fileId cnt ↔
      ∃ path, listed[fileId]? = some path ∧ occurrences oem (bytes path) word ≠ 0 ∧
        cnt = saturateCount (occurrences oem (bytes path) word) := by
  have size : (sourceFiles metadata bytes listed).length = listed.length := List.length_map _
  rw [BatchIndexSnapshot.Counts, (snapshotOf_builds built).counts, size]
  constructor
  · rintro ⟨bound, positive, rfl⟩
    have here : listed[fileId]? = some listed[fileId] := List.getElem?_eq_getElem bound
    rw [contentOf_sourceFiles here] at positive ⊢
    exact ⟨_, here, positive.ne', rfl⟩
  · rintro ⟨path, here, present, rfl⟩
    rw [contentOf_sourceFiles here]
    exact ⟨(List.getElem?_eq_some_iff.mp here).1, Nat.pos_of_ne_zero present, rfl⟩

/-- The update of a new index and a batch build that is installed give the same answers exactly
when every count of a word in a file survives the narrowing to 16 bits. -/
theorem buildsAgree_iff {storage : System.CatalogStorage} {precountPostings : Bool}
    {contents : Path → Option (List Byte)} {opened dispatched complete final : System}
    {schedule : List Action} {order : IterationOrder} {sortRuns : StdSort TermRun.word}
    {sortPostings : StdSort Posting.fileId} {builder : BatchIndexBuilder}
    {snapshot : BatchIndexSnapshot} {faults : InstallFaults} {store : IndexStore}
    (started : System.start storage .empty precountPostings = some opened) (distinct : listed.Nodup)
    (readable : ∀ path ∈ listed, contents path = some (bytes path))
    (update : System.UpdateRun oem contents listed stat opened dispatched complete final schedule order)
    (scanned : (opened.catalog.scan opened.db stat listed).2 = some diff)
    (built : BuildsTo oem sortRuns sortPostings builder (sourceFiles metadata bytes listed)
      (.ok snapshot))
    (returned : (installBatchSnapshot faults store
      (snapshot.forInstall (snapshotOf_builds built).toNumbered) listed).2 = .returned) :
    (∀ word fileId, final.index.answer word fileId =
        (installBatchSnapshot faults store
          (snapshot.forInstall (snapshotOf_builds built).toNumbered) listed).1.index.answer word fileId) ↔
      ∀ path ∈ listed, ∀ word, CountFits (occurrences oem (bytes path) word) := by
  have answers : ∀ word fileId cnt, final.index.answer word fileId = some cnt ↔
      ∃ path, listed[fileId]? = some path ∧ occurrences oem (bytes path) word ≠ 0 ∧
        cnt = wrapCount (occurrences oem (bytes path) word) := by
    intro word fileId cnt
    rw [System.answers_of_first_update started distinct update scanned, Option.bind_eq_some_iff]
    refine exists_congr fun path => and_congr_right fun here => ?_
    rw [readable path (List.mem_of_getElem? here), indexedCounts_some]
    split
    · rename_i absent
      simp [absent]
    · rename_i present
      simp [present, eq_comm]
  have installed : ∀ word fileId cnt,
      (installBatchSnapshot faults store
        (snapshot.forInstall (snapshotOf_builds built).toNumbered) listed).1.index.answer word fileId =
          some cnt ↔
      ∃ path, listed[fileId]? = some path ∧ occurrences oem (bytes path) word ≠ 0 ∧
        cnt = saturateCount (occurrences oem (bytes path) word) := by
    intro word fileId cnt
    rw [index_of_returned returned, answer_forInstall (snapshotOf_builds built),
      counts_sourceFiles built]
  constructor
  · intro agree path member word
    by_cases absent : occurrences oem (bytes path) word = 0
    · rw [absent]
      decide
    · obtain ⟨fileId, here⟩ := List.mem_iff_getElem?.mp member
      have stored := (answers word fileId _).mpr ⟨path, here, absent, rfl⟩
      obtain ⟨other, there, -, same⟩ := (installed word fileId _).mp ((agree word fileId).symm.trans stored)
      obtain rfl : path = other := Option.some.inj (here.symm.trans there)
      exact same
  · intro fits word fileId
    ext cnt
    rw [answers, installed]
    refine exists_congr fun path => and_congr_right fun here => and_congr_right fun _ => ?_
    have fit : wrapCount _ = saturateCount _ := fits path (List.mem_of_getElem? here) word
    rw [fit]

/-! ## One file -/

def onePath : List Path := ["a".toList]

def oneFileBytes : Path → List Byte := fun _ => Word.ofAscii "EVA EVA"

/-- The file is indexed, committed and written. -/
def oneFileSchedule : List Action :=
  [.runIndexing 0 (some (Word.ofAscii "EVA EVA")) (batchList .plain (Word.ofAscii "EVA EVA")),
    .runStrand .increasing, .runCommit 0, .writeQueue .increasing]

def oneFileDispatched : System :=
  (System.emptyStart.updateDocumentBase onePath System.twoStats).get (by decide +kernel)

def oneFileComplete : System :=
  ((System.machine .plain).run oneFileDispatched oneFileSchedule).get (by decide +kernel)

def oneFileFinal : System := (oneFileComplete.finishUpdate .increasing).get (by decide +kernel)

theorem updateRun_oneFile : System.UpdateRun .plain (fun path => some (oneFileBytes path)) onePath
    System.twoStats System.emptyStart oneFileDispatched oneFileComplete oneFileFinal oneFileSchedule
    .increasing where
  dispatches := (Option.some_get _).symm
  reported := by decide +kernel
  follows := by decide +kernel
  runs := (Option.some_get _).symm
  idle := by decide +kernel
  finishes := (Option.some_get _).symm

theorem countFits_oneFile (word : Word) :
    CountFits (occurrences .plain (Word.ofAscii "EVA EVA") word) := by
  have listed : ∀ entry ∈ (frequencies .plain (Word.ofAscii "EVA EVA")).entries, CountFits entry.2 := by
    decide +kernel
  rw [occurrences]
  cases found : (frequencies .plain (Word.ofAscii "EVA EVA")).find? word with
  | none => decide
  | some count => exact listed (word, count) (SortedMap.mem_entries_iff.mpr found)

def oneFileSources : List SourceFile := sourceFiles (fun _ => ⟨1, 7⟩) oneFileBytes onePath

theorem built_oneFile : BuildsTo .plain (.stable _) (.stable _) (.new 1 {}) oneFileSources
    (.ok (expectedSnapshot .plain oneFileSources)) := by
  have few : oneFileSources.length ≤ 2 ^ 32 - 1 := by decide
  have built := exists_buildsTo .plain (.new 1 {}) few (.stable _) (.stable _)
  rwa [if_pos (by decide +kernel)] at built

theorem buildsAgree_oneFile : ∃ (snapshot : BatchIndexSnapshot) (numbered : snapshot.Numbered),
    ∀ word fileId, oneFileFinal.index.answer word fileId =
      (installBatchSnapshot InstallFaults.none emptyStore (snapshot.forInstall numbered)
        onePath).1.index.answer word fileId := by
  have scanned : (System.emptyStart.catalog.scan System.emptyStart.db System.twoStats onePath).2 =
      some ⟨[⟨0, 0, ⟨1, 7⟩⟩], [], []⟩ := by decide +kernel
  have returned : (installBatchSnapshot InstallFaults.none emptyStore
      ((expectedSnapshot .plain oneFileSources).forInstall (snapshotOf_builds built_oneFile).toNumbered)
      onePath).2 = .returned := by decide +kernel
  exact ⟨_, _, (buildsAgree_iff System.started_emptyStart (by decide) (fun _ _ => rfl) updateRun_oneFile
    scanned built_oneFile returned).mpr fun _ _ word => countFits_oneFile word⟩

end SearchEngine.Batch
