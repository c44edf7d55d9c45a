import SearchEngine.Batch.Merge
import SearchEngine.Batch.ReferenceFrequencies

/-!
# One snapshot for every schedule

However the threads of `build` are interleaved, how many there are and how small
their queues, the build ends, handles every block of every document in order and
returns the snapshot of the corpus. The counts of that snapshot are those of the
whole documents unless a word left in the carry of a document is missed.
-/

namespace SearchEngine.Batch

open SearchEngine.Lib SearchEngine.Index

/-! ## Numbering -/

namespace BatchIndexSnapshot

/-- The words are numbered in order, and the references are those of the lists. -/
structure Numbered (snapshot : BatchIndexSnapshot) : Prop where
  numbered : ∀ word (id : Nat), snapshot.wordToId.find? word = some id ↔ snapshot.idToWord[id]? = some word
  listed : snapshot.postings.length = snapshot.idToWord.length
  referenced : ∀ fileId (id : Nat), id ∈ (snapshot.wordRefs.find? fileId).getD [] ↔
    ∃ postings, snapshot.postings[id]? = some postings ∧
      fileId ∈ postings.map Posting.fileId
  once : ∀ fileId, ((snapshot.wordRefs.find? fileId).getD []).Nodup

/-- The `wordRefs` loop adds the word to every listed document. -/
theorem find?_wordRefs {postings : List Posting} (distinct : (postings.map Posting.fileId).Nodup)
    (refs : SortedMap FileId (List WordId)) (wordId : WordId) (fileId : FileId) :
    ((postings.foldl (fun refs posting => refs.insert posting.fileId
      ((refs.find? posting.fileId).getD [] ++ [wordId])) refs).find? fileId).getD [] =
      (refs.find? fileId).getD [] ++ if fileId ∈ postings.map Posting.fileId then [wordId] else [] := by
  induction postings generalizing refs with
  | nil => simp
  | cons posting rest ih =>
      obtain ⟨fresh, restDistinct⟩ := List.nodup_cons.mp distinct
      rw [List.foldl_cons, ih restDistinct, SortedMap.find?_insert]
      by_cases same : posting.fileId = fileId
      · subst same
        have first : posting.fileId ∈ (posting :: rest).map Posting.fileId := List.mem_cons_self
        rw [if_pos rfl, if_neg fresh, if_pos first, List.append_nil]
        rfl
      · have equal : fileId ∈ (posting :: rest).map Posting.fileId ↔
            fileId ∈ rest.map Posting.fileId := by
          rw [List.map_cons, List.mem_cons]
          exact or_iff_right (Ne.symm same)
        rw [if_neg same]
        simp only [equal]

theorem Numbered.addTerm {snapshot : BatchIndexSnapshot} (numbered : snapshot.Numbered)
    {term : Word × List Posting} (fresh : term.1 ∉ snapshot.idToWord)
    (distinct : (term.2.map Posting.fileId).Nodup) : (snapshot.addTerm term).Numbered := by
  have unnumbered : snapshot.wordToId.find? term.1 = none := by
    cases found : snapshot.wordToId.find? term.1 with
    | none => rfl
    | some id =>
        exact absurd (List.mem_of_getElem? ((numbered.numbered _ _).mp found)) fresh
  constructor
  case numbered =>
    intro word id
    simp only [BatchIndexSnapshot.addTerm, SortedMap.find?_emplace]
    by_cases same : term.1 = word
    · subst same
      rw [unnumbered, Option.none_or, if_pos rfl, Option.some.injEq]
      constructor
      · rintro rfl
        simp
      · intro stored
        obtain ⟨inList, equal⟩ := List.getElem?_eq_some_iff.mp stored
        by_contra different
        rw [List.length_append, List.length_singleton] at inList
        have earlier : id < snapshot.idToWord.length :=
          Nat.lt_of_le_of_ne (Nat.lt_succ_iff.mp inList) (Ne.symm different)
        rw [List.getElem_append_left earlier] at equal
        exact fresh (equal ▸ List.getElem_mem earlier)
    · rw [if_neg same, Option.or_none, numbered.numbered]
      by_cases earlier : id < snapshot.idToWord.length
      · rw [List.getElem?_append_left earlier]
      · rw [List.getElem?_append_right (by omega), List.getElem?_eq_none (by omega)]
        refine iff_of_false (by simp) fun stored => ?_
        exact same (List.mem_singleton.mp (List.mem_of_getElem? stored)).symm
  case listed =>
    simp only [BatchIndexSnapshot.addTerm, List.length_append, List.length_singleton,
      numbered.listed]
  case referenced =>
    intro fileId id
    simp only [BatchIndexSnapshot.addTerm, find?_wordRefs distinct, List.mem_append,
      numbered.referenced]
    by_cases earlier : id < snapshot.postings.length
    · rw [List.getElem?_append_left earlier]
      refine or_iff_left fun new => ?_
      split at new
      · have equal : id = snapshot.idToWord.length := List.mem_singleton.mp new
        rw [numbered.listed] at earlier
        omega
      · cases new
    · rw [List.getElem?_append_right (by omega), List.getElem?_eq_none (by omega)]
      by_cases last : id = snapshot.idToWord.length
      · subst last
        rw [← numbered.listed, Nat.sub_self]
        by_cases inTerm : fileId ∈ term.2.map Posting.fileId
        · rw [if_pos inTerm]
          exact iff_of_true (.inr (List.mem_singleton_self _)) ⟨_, rfl, inTerm⟩
        · rw [if_neg inTerm]
          refine iff_of_false (by simp) ?_
          rintro ⟨postings, stored, listed⟩
          obtain rfl := Option.some.inj stored
          exact inTerm listed
      · have beyond : ([term.2] : List (List Posting))[id - snapshot.postings.length]? = none := by
          rw [List.getElem?_eq_none_iff, List.length_singleton]
          have length := numbered.listed
          omega
        rw [beyond]
        refine iff_of_false ?_ (by simp)
        rintro (⟨_, absurd, _⟩ | new)
        · cases absurd
        · split at new
          · exact last (List.mem_singleton.mp new)
          · cases new
  case once =>
    intro fileId
    simp only [BatchIndexSnapshot.addTerm, find?_wordRefs distinct]
    refine (numbered.once fileId).append (by split <;> simp) ?_
    intro id old new
    split at new
    · obtain ⟨postings, stored, _⟩ := (numbered.referenced fileId id).mp old
      obtain ⟨inList, _⟩ := List.getElem?_eq_some_iff.mp stored
      rw [List.mem_singleton.mp new, numbered.listed] at inList
      exact Nat.lt_irrefl _ inList
    · cases new

/-- Numbering the entries of a dictionary. -/
theorem numbered_foldl_addTerm {terms : List (Word × List Posting)}
    (words : (terms.map Prod.fst).Nodup)
    (distinct : ∀ term ∈ terms, (term.2.map Posting.fileId).Nodup) (metadata : List DocumentMetadata)
    (indexedFiles bytesRead : Nat) :
    let snapshot := terms.foldl addTerm
      { documentMetadata := metadata, indexedFiles := indexedFiles, bytesRead := bytesRead }
    snapshot.Numbered ∧ snapshot.idToWord = terms.map Prod.fst ∧
      snapshot.postings = terms.map Prod.snd := by
  induction terms using List.reverseRecOn with
  | nil =>
      refine ⟨⟨?_, rfl, ?_, ?_⟩, rfl, rfl⟩
      · exact fun _ _ => iff_of_false (by simp) (by simp)
      · exact fun _ _ => iff_of_false (by simp) (by simp)
      · exact fun _ => List.nodup_nil
  | append_singleton earlier term ih =>
      rw [List.map_append, List.nodup_append] at words
      obtain ⟨numbered, idToWord, postings⟩ := ih words.1 fun other member =>
        distinct other (List.mem_append_left _ member)
      simp only [List.foldl_append, List.foldl_cons, List.foldl_nil, List.map_append, List.map_cons,
        List.map_nil]
      refine ⟨numbered.addTerm ?_ (distinct term (by simp)), ?_, ?_⟩
      · rw [idToWord]
        exact fun old => words.2.2 _ old _ (by simp) rfl
      · simp only [BatchIndexSnapshot.addTerm, idToWord]
      · simp only [BatchIndexSnapshot.addTerm, postings]

/-- The loop ends with a snapshot exactly when there are numbers for all words. -/
theorem foldlM_appendTerm (terms : List (Word × List Posting)) (snapshot : BatchIndexSnapshot)
    (below : snapshot.idToWord.length ≤ 2 ^ 32 - 1) :
    terms.foldlM appendTerm snapshot =
      if snapshot.idToWord.length + terms.length ≤ 2 ^ 32 - 1 then
        .ok (terms.foldl BatchIndexSnapshot.addTerm snapshot)
      else .error .tooManyUniqueWords := by
  induction terms generalizing snapshot with
  | nil =>
      rw [List.length_nil, Nat.add_zero, if_pos below]
      rfl
  | cons term rest ih =>
      rw [List.foldlM_cons, appendTerm]
      by_cases full : 2 ^ 32 - 1 ≤ snapshot.idToWord.length
      · rw [if_pos full, if_neg (by rw [List.length_cons]; omega)]
        rfl
      · have longer : (snapshot.addTerm term).idToWord.length = snapshot.idToWord.length + 1 := by
          simp [BatchIndexSnapshot.addTerm]
        have shift : snapshot.idToWord.length + 1 + rest.length =
            snapshot.idToWord.length + (term :: rest).length := by
          rw [List.length_cons]
          omega
        rw [if_neg full]
        refine (ih _ (by omega)).trans ?_
        rw [longer, shift]
        rfl

end BatchIndexSnapshot

/-! ## The snapshot of the corpus -/

theorem map_fileId_postingsFor_nodup (oem : OemTable) (files : List SourceFile) (word : Word) :
    ((postingsFor oem files word (List.range files.length)).map Posting.fileId).Nodup := by
  rw [List.nodup_iff_pairwise_ne, List.pairwise_map]
  exact (sorted_postingsFor oem files word files.length).imp fun less => less.ne

/-- The entries of the corpus are the words with their postings. -/
theorem mem_corpus_iff {oem : OemTable} {files : List SourceFile} {word : Word}
    {postings : List Posting} :
    (word, postings) ∈ (corpus oem files).entries ↔
      postings ≠ [] ∧ postings = postingsFor oem files word (List.range files.length) := by
  rw [SortedMap.mem_entries_iff, lists_corpus oem files word]
  split
  · rename_i none
    rw [none]
    exact iff_of_false (by simp) fun both => both.1 both.2
  · rename_i filled
    rw [Option.some.injEq]
    exact ⟨fun equal => ⟨equal ▸ filled, equal.symm⟩, fun both => both.2.symm⟩

theorem mem_postingsFor_iff {oem : OemTable} {files : List SourceFile} {word : Word}
    {posting : Posting} :
    posting ∈ postingsFor oem files word (List.range files.length) ↔
      posting.fileId < files.length ∧
        0 < occurrences oem (contentOf files posting.fileId) word ∧
        posting.cnt = saturateCount (occurrences oem (contentOf files posting.fileId) word) := by
  have counted : ∀ (content : List Byte) (count : Nat),
      (frequencies oem content).find? word = some count ↔
        count = occurrences oem content word ∧ 0 < occurrences oem content word := by
    intro content count
    constructor
    · intro found
      have positive := ((find?_countWords oem _ word count).mp found).2
      rw [occurrences, found]
      exact ⟨rfl, positive⟩
    · rintro ⟨rfl, positive⟩
      rw [occurrences] at positive ⊢
      cases found : (frequencies oem content).find? word with
      | none => simp [found] at positive
      | some count => rfl
  rw [postingsFor, List.mem_filterMap]
  constructor
  · rintro ⟨fileId, listed, found⟩
    obtain ⟨count, lookup, rfl⟩ := Option.map_eq_some_iff.mp found
    obtain ⟨rfl, positive⟩ := (counted _ _).mp lookup
    exact ⟨List.mem_range.mp listed, positive, rfl⟩
  · rintro ⟨listed, positive, countEq⟩
    refine ⟨posting.fileId, List.mem_range.mpr listed, Option.map_eq_some_iff.mpr
      ⟨_, (counted _ _).mpr ⟨rfl, positive⟩, ?_⟩⟩
    rw [← countEq]

/-- A snapshot of documents in which a word occurs a given number of times. -/
structure SnapshotOf (files : List SourceFile) (count : FileId → Word → Nat)
    (snapshot : BatchIndexSnapshot) : Prop extends snapshot.Numbered where
  sorted : ∀ postings ∈ snapshot.postings,
    postings.Pairwise fun first second => first.fileId < second.fileId
  counts : ∀ word fileId cnt,
    (∃ (id : Nat) (postings : List Posting), snapshot.idToWord[id]? = some word ∧
      snapshot.postings[id]? = some postings ∧ ⟨fileId, cnt⟩ ∈ postings) ↔
      fileId < files.length ∧ 0 < count fileId word ∧ cnt = saturateCount (count fileId word)
  metadata : snapshot.documentMetadata = files.map SourceFile.metadata
  indexed : snapshot.indexedFiles = files.length
  bytes : snapshot.bytesRead = (files.map fun file => file.content.length).sum

/-- The expected snapshot counts the words the indexers find. -/
theorem snapshotOf_expectedSnapshot (oem : OemTable) (files : List SourceFile) :
    SnapshotOf files (fun fileId => occurrences oem (contentOf files fileId))
      (expectedSnapshot oem files) := by
  have fields : ∀ (terms : List (Word × List Posting)) (snapshot : BatchIndexSnapshot),
      (terms.foldl BatchIndexSnapshot.addTerm snapshot).documentMetadata =
          snapshot.documentMetadata ∧
        (terms.foldl BatchIndexSnapshot.addTerm snapshot).indexedFiles = snapshot.indexedFiles ∧
        (terms.foldl BatchIndexSnapshot.addTerm snapshot).bytesRead = snapshot.bytesRead := by
    intro terms
    induction terms with
    | nil => exact fun _ => ⟨rfl, rfl, rfl⟩
    | cons term rest ih => exact fun snapshot => ih (snapshot.addTerm term)
  obtain ⟨numbered, idToWord, postingsEq⟩ := BatchIndexSnapshot.numbered_foldl_addTerm
    (SortedMap.keys_nodup (corpus oem files)) (fun term member => by
      rw [(mem_corpus_iff.mp member).2]
      exact map_fileId_postingsFor_nodup oem files term.1)
    (files.map SourceFile.metadata) files.length (files.map fun file => file.content.length).sum
  refine ⟨numbered, fun postings member => ?_, fun word fileId cnt => ?_, (fields _ _).1,
    (fields _ _).2.1, (fields _ _).2.2⟩
  · rw [expectedSnapshot, postingsEq] at member
    obtain ⟨term, listed, rfl⟩ := List.mem_map.mp member
    rw [(mem_corpus_iff.mp listed).2]
    exact sorted_postingsFor oem files term.1 files.length
  · rw [← @mem_postingsFor_iff oem files word ⟨fileId, cnt⟩]
    simp only [expectedSnapshot, idToWord, postingsEq, List.getElem?_map]
    constructor
    · rintro ⟨id, postings, named, listed, member⟩
      obtain ⟨term, stored, rfl⟩ := Option.map_eq_some_iff.mp named
      rw [stored, Option.map_some] at listed
      obtain rfl := Option.some.inj listed
      rwa [← (mem_corpus_iff.mp (List.mem_of_getElem? stored)).2]
    · intro member
      obtain ⟨id, stored⟩ := List.mem_iff_getElem?.mp
        (mem_corpus_iff.mpr ⟨List.ne_nil_of_mem member, rfl⟩ : (word, _) ∈ _)
      exact ⟨id, _, by rw [stored]; rfl, by rw [stored]; rfl, member⟩

/-! ## Builds -/

namespace Pipeline

variable {oem : OemTable} {builder : BatchIndexBuilder} {files : List SourceFile}

/-- The order and the tally hold after every schedule. -/
theorem reachable {schedule : List (Thread builder)} {state : Pipeline builder × History builder}
    (done : (machine oem builder files).run (start builder files, History.empty) schedule =
      some state) : Orderly oem files state.1 state.2 ∧ Tallied oem files state.1 state.2 := by
  have kept : ∀ (before : Pipeline builder × History builder) thread next,
      Orderly oem files before.1 before.2 ∧ Tallied oem files before.1 before.2 →
      (machine oem builder files).step before thread = some next →
      Orderly oem files next.1 next.2 ∧ Tallied oem files next.1 next.2 := by
    intro before thread next holds taken
    obtain ⟨after, stepped, rfl⟩ := Option.map_eq_some_iff.mp taken
    have moved := holds.1.move stepped
    exact ⟨holds.1.kept moved, holds.2.kept holds.1 moved⟩
  exact Machine.invariant_reachable kept
    ⟨Orderly.initial oem builder files, Tallied.initial oem builder files⟩ done

/-- The threads get joined. -/
theorem exists_joined (oem : OemTable) (builder : BatchIndexBuilder) (files : List SourceFile) :
    ∃ schedule final, (machine oem builder files).run (start builder files, History.empty) schedule =
      some final ∧ final.1.main = .joined :=
  Machine.exists_run_of_progress
    (fun state : Pipeline builder × History builder => Orderly oem files state.1 state.2)
    (fun state => work files state.1)
    (fun _ _ _ holds taken => holds.step_work taken)
    (fun state holds running => by
      obtain ⟨thread, next, taken⟩ := holds.progress running
      exact ⟨thread, _, Option.map_eq_some_iff.mpr ⟨next, taken, rfl⟩⟩)
    (Orderly.initial oem builder files)

/-- What `build` makes of the joined threads. -/
theorem finish_of_joined {schedule : List (Thread builder)}
    {final : Pipeline builder × History builder} (sortRuns : StdSort TermRun.word)
    (sortPostings : StdSort Posting.fileId)
    (done : (machine oem builder files).run (start builder files, History.empty) schedule =
      some final) (joined : final.1.main = .joined) :
    final.1.finish sortRuns sortPostings =
      if (corpus oem files).entries.length ≤ 2 ^ 32 - 1 then .ok (expectedSnapshot oem files)
      else .error .tooManyUniqueWords := by
  obtain ⟨order, tallied⟩ := reachable done
  have merged := mergeDictionaries_eq_corpus sortRuns sortPostings
    (List.finRange builder.indexerThreads)
    (fun worker => (final.1.indexers worker).dictionary) final.2.commits
    (fun worker => by
      rw [tallied.dictionary]
      exact lists_commitDocuments oem files builder.payloadSize_pos _)
    (tallied.commits_perm order joined)
  rw [finish, order.calm, if_neg Bool.false_ne_true, merged,
    BatchIndexSnapshot.foldlM_appendTerm _ _ (Nat.zero_le _), tallied.metadata_of_joined order joined,
    tallied.indexed_of_joined order joined, tallied.bytes_of_joined order joined]
  simp only [List.length_nil, Nat.zero_add]
  rfl

end Pipeline

/-- A result of `build` for some interleaving of its threads. -/
def BuildsTo (oem : OemTable) (sortRuns : StdSort TermRun.word)
    (sortPostings : StdSort Posting.fileId) (builder : BatchIndexBuilder) (files : List SourceFile)
    (result : Except BuildError BatchIndexSnapshot) : Prop :=
  if 2 ^ 32 - 1 < files.length then result = .error .tooManyDocuments
  else
    ∃ schedule final, (Pipeline.machine oem builder files).run
        (Pipeline.start builder files, Pipeline.History.empty) schedule = some final ∧
      final.1.main = .joined ∧ result = final.1.finish sortRuns sortPostings

/-- Every build of these files ends, handles the blocks of every document in
order and returns one snapshot, that of the whole documents. -/
structure BuildsOneSnapshot (oem : OemTable) (files : List SourceFile) : Prop where
  result : ∃ snapshot,
    SnapshotOf files (fun fileId => referenceCount oem (contentOf files fileId)) snapshot ∧
      ∀ builder sortRuns sortPostings result,
        BuildsTo oem sortRuns sortPostings builder files result → result = .ok snapshot
  returns : ∀ builder, ∃ bound, ∀ schedule state,
    (Pipeline.machine oem builder files).run
        (Pipeline.start builder files, Pipeline.History.empty) schedule = some state →
      schedule.length ≤ bound ∧ (state.1.main ≠ .joined →
        ∃ thread next, (Pipeline.machine oem builder files).step state thread = some next)
  inOrder : ∀ builder schedule final,
    (Pipeline.machine oem builder files).run
        (Pipeline.start builder files, Pipeline.History.empty) schedule = some final →
      final.1.main = .joined → ∀ fileId < files.length,
        final.2.handled fileId = documentBlocks builder.payloadSize fileId (contentOf files fileId)

/-- The different words of the whole files. -/
def differentWords (oem : OemTable) (files : List SourceFile) : List Word :=
  (files.flatMap fun file => (referenceFrequencies oem file.content).keys).dedup

/-- A word left in the carry of a document occurs in it more often than a stored
count can tell. -/
def KeepsWords (oem : OemTable) (files : List SourceFile) : Prop :=
  ∀ fileId < files.length, ∀ word, droppedWord oem (contentOf files fileId) = some word →
    65535 < referenceCount oem (contentOf files fileId) word

/-! ## The whole documents -/

/-- Whole and found occurrences differ by the word left in the carry. -/
theorem referenceCount_eq_occurrences (oem : OemTable) (content : List Byte) (word : Word) :
    referenceCount oem content word =
      occurrences oem content word + if droppedWord oem content = some word then 1 else 0 := by
  rw [referenceCount_eq]
  congr 1
  rw [occurrences]
  cases found : (frequencies oem content).find? word with
  | none =>
      by_contra some
      have present := (find?_countWords oem (tokenizeBlocks [] (readBlocks content)) word _).mpr
        ⟨rfl, Nat.pos_of_ne_zero some⟩
      rw [frequencies] at found
      rw [found] at present
      cases present
  | some count => exact ((find?_countWords oem _ word count).mp found).1.symm

/-- A missed occurrence does not show in a stored count that is full. -/
theorem SnapshotOf.of_keepsWords {oem : OemTable} {files : List SourceFile}
    {snapshot : BatchIndexSnapshot} (kept : KeepsWords oem files)
    (found : SnapshotOf files (fun fileId => occurrences oem (contentOf files fileId)) snapshot) :
    SnapshotOf files (fun fileId => referenceCount oem (contentOf files fileId)) snapshot := by
  refine { found with counts := fun word fileId cnt => ?_ }
  rw [found.counts]
  refine and_congr_right fun listed => ?_
  have counts := referenceCount_eq_occurrences oem (contentOf files fileId) word
  by_cases dropped : droppedWord oem (contentOf files fileId) = some word
  · have many := kept fileId listed word dropped
    rw [if_pos dropped] at counts
    have equal : saturateCount (occurrences oem (contentOf files fileId) word) =
        saturateCount (referenceCount oem (contentOf files fileId) word) := by
      apply UInt16.toNat.inj
      rw [toNat_saturateCount, toNat_saturateCount]
      omega
    rw [equal]
    refine and_congr_left fun _ => ?_
    omega
  · rw [if_neg dropped, Nat.add_zero] at counts
    rw [counts]

/-- A snapshot with the counts of the whole documents and of the found words. -/
theorem keepsWords_of_snapshotOf {oem : OemTable} {files : List SourceFile}
    {snapshot : BatchIndexSnapshot}
    (whole : SnapshotOf files (fun fileId => referenceCount oem (contentOf files fileId)) snapshot)
    (found : SnapshotOf files (fun fileId => occurrences oem (contentOf files fileId)) snapshot) :
    KeepsWords oem files := by
  intro fileId listed word dropped
  have counts := referenceCount_eq_occurrences oem (contentOf files fileId) word
  rw [if_pos dropped] at counts
  have present := (whole.counts word fileId _).mpr ⟨listed, by omega, rfl⟩
  obtain ⟨_, _, equal⟩ := (found.counts word fileId _).mp present
  have values := congrArg UInt16.toNat equal
  rw [toNat_saturateCount, toNat_saturateCount] at values
  omega

/-- The entries of the corpus are the different words, unless one is missed. -/
theorem length_corpus {oem : OemTable} {files : List SourceFile} (kept : KeepsWords oem files) :
    (corpus oem files).entries.length = (differentWords oem files).length := by
  have wordsOnce : ((corpus oem files).entries.map Prod.fst).Nodup := SortedMap.keys_nodup _
  have differ : (differentWords oem files).Nodup := List.nodup_dedup _
  have same : ((corpus oem files).entries.map Prod.fst).Perm (differentWords oem files) := by
    rw [List.perm_ext_iff_of_nodup wordsOnce differ]
    intro word
    rw [differentWords, List.mem_dedup, List.mem_flatMap, List.mem_map]
    constructor
    · rintro ⟨⟨stored, postings⟩, member, rfl⟩
      obtain ⟨filled, rfl⟩ := mem_corpus_iff.mp member
      obtain ⟨posting, listed⟩ := List.exists_mem_of_ne_nil _ filled
      obtain ⟨inFiles, positive, _⟩ := mem_postingsFor_iff.mp listed
      refine ⟨files[posting.fileId], List.getElem_mem inFiles, SortedMap.mem_keys_iff.mpr
        ⟨_, (find?_referenceFrequencies oem _ _ _).mpr ⟨rfl, ?_⟩⟩⟩
      have content : contentOf files posting.fileId = files[posting.fileId].content := by
        rw [contentOf, List.getElem?_eq_getElem inFiles]
        rfl
      rw [content] at positive
      rw [referenceCount_eq_occurrences]
      exact Nat.lt_of_lt_of_le positive (Nat.le_add_right _ _)
    · rintro ⟨file, member, inKeys⟩
      obtain ⟨fileId, inFiles, rfl⟩ := List.getElem_of_mem member
      obtain ⟨count, stored⟩ := SortedMap.mem_keys_iff.mp inKeys
      obtain ⟨rfl, positive⟩ := (find?_referenceFrequencies oem _ _ _).mp stored
      have content : contentOf files fileId = files[fileId].content := by
        rw [contentOf, List.getElem?_eq_getElem inFiles]
        rfl
      rw [← content] at positive
      have counts := referenceCount_eq_occurrences oem (contentOf files fileId) word
      have occurs : 0 < occurrences oem (contentOf files fileId) word := by
        by_cases dropped : droppedWord oem (contentOf files fileId) = some word
        · have many := kept fileId inFiles word dropped
          rw [if_pos dropped] at counts
          omega
        · rw [if_neg dropped] at counts
          omega
      have listed : (⟨fileId, saturateCount (occurrences oem (contentOf files fileId) word)⟩ :
          Posting) ∈ postingsFor oem files word (List.range files.length) :=
        mem_postingsFor_iff.mpr ⟨inFiles, occurs, rfl⟩
      exact ⟨(word, _), mem_corpus_iff.mpr ⟨List.ne_nil_of_mem listed, rfl⟩, rfl⟩
  rw [← same.length_eq, List.length_map]

/-- A stable `std::sort`. -/
def StdSort.stable {T K : Type} [LinearOrder K] (key : T → K) : StdSort key where
  sort list := list.mergeSort fun first second => decide (key first ≤ key second)
  perm list := List.mergeSort_perm list _
  sorted list := by
    refine (List.pairwise_mergeSort ?_ ?_ list).imp fun ordered => of_decide_eq_true ordered
    · intro first second third less greater
      rw [decide_eq_true_eq] at less greater ⊢
      exact less.trans greater
    · intro first second
      simpa using le_total (key first) (key second)

/-- Some build of the files has a result. -/
theorem exists_buildsTo (oem : OemTable) (builder : BatchIndexBuilder) {files : List SourceFile}
    (few : files.length ≤ 2 ^ 32 - 1) (sortRuns : StdSort TermRun.word)
    (sortPostings : StdSort Posting.fileId) :
    BuildsTo oem sortRuns sortPostings builder files
      (if (corpus oem files).entries.length ≤ 2 ^ 32 - 1 then .ok (expectedSnapshot oem files)
        else .error .tooManyUniqueWords) := by
  obtain ⟨schedule, final, done, joined⟩ := Pipeline.exists_joined oem builder files
  rw [BuildsTo, if_neg (by omega)]
  exact ⟨schedule, final, done, joined,
    (Pipeline.finish_of_joined sortRuns sortPostings done joined).symm⟩

/-- The snapshot of all builds is the expected one. -/
theorem eq_expectedSnapshot {oem : OemTable} {files : List SourceFile}
    {snapshot : BatchIndexSnapshot}
    (same : ∀ builder sortRuns sortPostings result,
      BuildsTo oem sortRuns sortPostings builder files result → result = .ok snapshot) :
    files.length ≤ 2 ^ 32 - 1 ∧ (corpus oem files).entries.length ≤ 2 ^ 32 - 1 ∧
      snapshot = expectedSnapshot oem files := by
  have few : files.length ≤ 2 ^ 32 - 1 := by
    by_contra many
    have thrown := same (.new 1 {}) (.stable _) (.stable _) (.error .tooManyDocuments) (by
      rw [BuildsTo, if_pos (by omega)])
    cases thrown
  have built := same (.new 1 {}) (.stable _) (.stable _) _ (exists_buildsTo oem _ few _ _)
  split at built
  · rename_i fits
    exact ⟨few, fits, (Except.ok.inj built).symm⟩
  · cases built

/-- Builds with one snapshot miss no word that a stored count could tell. -/
theorem BuildsOneSnapshot.keepsWords {oem : OemTable} {files : List SourceFile}
    (builds : BuildsOneSnapshot oem files) : KeepsWords oem files := by
  obtain ⟨snapshot, whole, same⟩ := builds.result
  obtain ⟨_, _, rfl⟩ := eq_expectedSnapshot same
  exact keepsWords_of_snapshotOf whole (snapshotOf_expectedSnapshot oem files)

/-- For all files: every build ends, handles all blocks in order and returns one
snapshot with the counts of the whole documents, exactly when there are numbers
for the documents and the words and no document misses a word in its carry whose
stored count is not full. -/
theorem buildsOneSnapshot_iff (oem : OemTable) (files : List SourceFile) :
    BuildsOneSnapshot oem files ↔
      files.length ≤ 2 ^ 32 - 1 ∧ (differentWords oem files).length ≤ 2 ^ 32 - 1 ∧
        KeepsWords oem files := by
  constructor
  · intro builds
    have kept := builds.keepsWords
    obtain ⟨snapshot, _, same⟩ := builds.result
    obtain ⟨few, fits, _⟩ := eq_expectedSnapshot same
    rw [length_corpus kept] at fits
    exact ⟨few, fits, kept⟩
  · rintro ⟨few, fits, kept⟩
    rw [← length_corpus kept] at fits
    refine
      { result := ⟨expectedSnapshot oem files,
          (snapshotOf_expectedSnapshot oem files).of_keepsWords kept, ?_⟩
        returns := fun builder => ⟨Pipeline.work files (Pipeline.start builder files), ?_⟩
        inOrder := ?_ }
    · intro builder sortRuns sortPostings result built
      rw [BuildsTo, if_neg (by omega)] at built
      obtain ⟨schedule, final, done, joined, rfl⟩ := built
      rw [Pipeline.finish_of_joined sortRuns sortPostings done joined, if_pos fits]
    · intro schedule state done
      have bounded := Machine.length_add_le_of_run
        (fun state : Pipeline builder × Pipeline.History builder =>
          Pipeline.Orderly oem files state.1 state.2)
        (fun state => Pipeline.work files state.1)
        (fun _ _ _ holds taken => holds.step_work taken)
        (Pipeline.Orderly.initial oem builder files) done
      refine ⟨(Nat.le_add_right _ _).trans bounded, fun running => ?_⟩
      obtain ⟨thread, next, taken⟩ := (Pipeline.reachable done).1.progress running
      exact ⟨thread, _, Option.map_eq_some_iff.mpr ⟨next, taken, rfl⟩⟩
    · intro builder schedule final done joined fileId listed
      exact (Pipeline.reachable done).1.handled_of_joined joined listed

/-- A file of 64 KiB that ends inside its only word. -/
def boundaryFile : SourceFile := ⟨⟨0, readBlockSize⟩, tailAtBoundary⟩

/-- No build of that file counts its word. -/
theorem not_buildsOneSnapshot_boundaryFile :
    ¬ BuildsOneSnapshot OemTable.plain [boundaryFile] := by
  intro builds
  have many := builds.keepsWords 0 (by simp) _ droppedWord_tailAtBoundary
  have once : referenceCount OemTable.plain tailAtBoundary (Word.ofAscii "tail") = 1 := by
    rw [referenceCount_eq, droppedWord_tailAtBoundary, tokenizeBlocks_readBlocks,
      if_pos length_tailAtBoundary, tokenizeBytes_tailAtBoundary]
    rfl
  change 65535 < referenceCount OemTable.plain tailAtBoundary (Word.ofAscii "tail") at many
  omega

end SearchEngine.Batch
