import SearchEngine.Batch.PipelineResult

/-!
# Merging the dictionaries

`build` sorts the runs of all dictionaries by word, joins the runs of a word,
sorts their postings by document, adds up the postings of a document and numbers
the words. Neither the order of the runs nor the choice `std::sort` makes between
equal keys shows in the result.
-/

namespace SearchEngine.Batch

open SearchEngine.Lib SearchEngine.Index

/-- A `std::sort` by a key; equal keys come in any order. -/
structure StdSort {T K : Type} [LE K] (key : T → K) where
  sort : List T → List T
  perm : ∀ list, (sort list).Perm list
  sorted : ∀ list, (sort list).Pairwise fun first second => key first ≤ key second

/-- `TermRun`. -/
structure TermRun where
  word : Word
  postings : List Posting

/-- `BatchIndexSnapshot` of a build without file errors. -/
structure BatchIndexSnapshot where
  documentMetadata : List DocumentMetadata
  wordToId : SortedMap Word WordId := ∅
  idToWord : List Word := []
  postings : List (List Posting) := []
  wordRefs : SortedMap FileId (List WordId) := ∅
  indexedFiles : Nat
  bytesRead : Nat

/-- The exceptions of `build`. -/
inductive BuildError where
  | tooManyDocuments
  | tooManyUniqueWords
  | fatal
  deriving DecidableEq

/-! ## The merge -/

/-- The runs of all dictionaries. -/
def termRuns (dictionaries : List LocalDictionary) : List TermRun :=
  dictionaries.flatMap fun dictionary => dictionary.entries.map fun entry => ⟨entry.1, entry.2⟩

/-- The `runBegin` loop inside the runs of `word`. -/
def gatherFrom (word : Word) (gathered : List Posting) : List TermRun → List (Word × List Posting)
  | [] => [(word, gathered)]
  | run :: rest =>
      if run.word = word then gatherFrom word (gathered ++ run.postings) rest
      else (word, gathered) :: gatherFrom run.word run.postings rest

/-- The runs of each word joined. -/
def gather : List TermRun → List (Word × List Posting)
  | [] => []
  | run :: rest => gatherFrom run.word run.postings rest

/-- The `readIndex` loop inside the postings of `fileId`. -/
def mergeFrom (fileId : FileId) (count : Nat) : List Posting → List Posting
  | [] => [⟨fileId, UInt16.ofNat count⟩]
  | posting :: rest =>
      if posting.fileId = fileId then mergeFrom fileId (min 65535 (count + posting.cnt.toNat)) rest
      else
        ⟨fileId, UInt16.ofNat count⟩ ::
          mergeFrom posting.fileId (min 65535 (0 + posting.cnt.toNat)) rest

/-- One posting for each document. -/
def mergePostings : List Posting → List Posting
  | [] => []
  | posting :: rest => mergeFrom posting.fileId (min 65535 (0 + posting.cnt.toNat)) rest

/-- The words with their merged postings, in the order they are numbered. -/
def mergeDictionaries (sortRuns : StdSort TermRun.word) (sortPostings : StdSort Posting.fileId)
    (dictionaries : List LocalDictionary) : List (Word × List Posting) :=
  (gather (sortRuns.sort (termRuns dictionaries))).map fun term =>
    (term.1, mergePostings (sortPostings.sort term.2))

namespace BatchIndexSnapshot

/-- Number the next word. -/
def addTerm (snapshot : BatchIndexSnapshot) (term : Word × List Posting) : BatchIndexSnapshot :=
  { snapshot with
    idToWord := snapshot.idToWord ++ [term.1]
    wordToId := snapshot.wordToId.emplace term.1 snapshot.idToWord.length
    postings := snapshot.postings ++ [term.2]
    wordRefs := term.2.foldl (fun refs posting => refs.insert posting.fileId
      ((refs.find? posting.fileId).getD [] ++ [snapshot.idToWord.length])) snapshot.wordRefs }

/-- One round of the `runBegin` loop. -/
def appendTerm (snapshot : BatchIndexSnapshot) (term : Word × List Posting) :
    Except BuildError BatchIndexSnapshot :=
  if 2 ^ 32 - 1 ≤ snapshot.idToWord.length then .error .tooManyUniqueWords
  else .ok (snapshot.addTerm term)

end BatchIndexSnapshot

/-- What `build` does when its threads are joined. -/
def Pipeline.finish {builder : BatchIndexBuilder} (sortRuns : StdSort TermRun.word)
    (sortPostings : StdSort Posting.fileId) (s : Pipeline builder) :
    Except BuildError BatchIndexSnapshot :=
  if s.fatalError then .error .fatal
  else
    (mergeDictionaries sortRuns sortPostings
      ((List.finRange builder.indexerThreads).map fun worker =>
        (s.indexers worker).dictionary)).foldlM BatchIndexSnapshot.appendTerm
      { documentMetadata := s.documentMetadata
        indexedFiles := s.indexedFiles
        bytesRead := s.bytesRead }

/-! ## The index of the corpus -/

/-- The posting of a document for a word. -/
def postingOf (oem : OemTable) (files : List SourceFile) (word : Word) (fileId : FileId) :
    Option Posting :=
  ((frequencies oem (contentOf files fileId)).find? word).map fun count =>
    ⟨fileId, saturateCount count⟩

/-- The postings of some documents for a word. -/
def postingsFor (oem : OemTable) (files : List SourceFile) (word : Word)
    (documents : List FileId) : List Posting :=
  documents.filterMap (postingOf oem files word)

/-- The dictionary of all documents in the order of their numbers. -/
def corpus (oem : OemTable) (files : List SourceFile) : LocalDictionary :=
  (List.range files.length).foldl (fun dictionary fileId =>
    commitDocument
      { fileId, frequencies := frequencies oem (contentOf files fileId) } dictionary) ∅

/-- The snapshot every build of these files returns. -/
def expectedSnapshot (oem : OemTable) (files : List SourceFile) : BatchIndexSnapshot :=
  (corpus oem files).entries.foldl BatchIndexSnapshot.addTerm
    { documentMetadata := files.map SourceFile.metadata
      indexedFiles := files.length
      bytesRead := (files.map fun file => file.content.length).sum }

/-- A dictionary that lists the postings of some documents. -/
def Lists (oem : OemTable) (files : List SourceFile) (dictionary : LocalDictionary)
    (documents : List FileId) : Prop :=
  ∀ word, dictionary.find? word =
    if postingsFor oem files word documents = [] then none
    else some (postingsFor oem files word documents)

/-- Committing one more document lists its postings last. -/
theorem Lists.commitDocument {oem : OemTable} {files : List SourceFile}
    {dictionary : LocalDictionary} {documents : List FileId}
    (lists : Lists oem files dictionary documents) (document : DocumentAccumulator)
    (counted : document.frequencies = frequencies oem (contentOf files document.fileId)) :
    Lists oem files (commitDocument document dictionary) (documents ++ [document.fileId]) := by
  intro word
  have last : postingsFor oem files word (documents ++ [document.fileId]) =
      postingsFor oem files word documents ++
        (postingOf oem files word document.fileId).toList := by
    rw [postingsFor, List.filterMap_append]
    cases posting : postingOf oem files word document.fileId <;> simp [posting, postingsFor]
  rw [find?_commitDocument, counted, last, lists word]
  cases found : (frequencies oem (contentOf files document.fileId)).find? word with
  | none => simp [postingOf, found]
  | some count =>
      by_cases none : postingsFor oem files word documents = []
      · simp [postingOf, found, none]
      · simp [postingOf, found, none]

theorem lists_nil (oem : OemTable) (files : List SourceFile) : Lists oem files ∅ [] :=
  fun _ => rfl

/-- A dictionary lists the documents committed to it. -/
theorem lists_commitDocuments (oem : OemTable) (files : List SourceFile) {payloadSize : Nat}
    (positive : 0 < payloadSize) (documents : List FileId) :
    Lists oem files (Pipeline.commitDocuments oem payloadSize files documents ∅) documents := by
  induction documents using List.reverseRecOn with
  | nil => exact lists_nil oem files
  | append_singleton earlier fileId ih =>
      have committed := ih.commitDocument (accumulate oem payloadSize fileId (contentOf files fileId))
        (by
          rw [fileId_accumulate]
          exact frequencies_accumulate oem fileId _ positive)
      rw [fileId_accumulate] at committed
      rw [Pipeline.commitDocuments, List.foldl_append]
      exact committed

/-- The corpus lists every document. -/
theorem lists_corpus (oem : OemTable) (files : List SourceFile) :
    Lists oem files (corpus oem files) (List.range files.length) := by
  rw [corpus]
  generalize List.range files.length = documents
  induction documents using List.reverseRecOn with
  | nil => exact lists_nil oem files
  | append_singleton earlier fileId ih =>
      rw [List.foldl_append]
      exact ih.commitDocument _ rfl

/-! ## Joining runs -/

/-- The postings of the runs of a word. -/
def runPostings (word : Word) (runs : List TermRun) : List (List Posting) :=
  (runs.filter fun run => run.word = word).map TermRun.postings

/-- The joined runs of a word are the postings of its runs, one after the other. -/
theorem findEntry_gatherFrom {first : Word} {gathered : List Posting} {runs : List TermRun}
    (sorted : runs.Pairwise fun left right => left.word ≤ right.word)
    (above : ∀ run ∈ runs, first ≤ run.word) (word : Word) :
    SortedMap.findEntry word (gatherFrom first gathered runs) =
      if word = first then some (gathered ++ (runPostings word runs).flatten)
      else if runPostings word runs = [] then none else some (runPostings word runs).flatten := by
  induction runs generalizing first gathered with
  | nil =>
      by_cases same : word = first
      · simp [gatherFrom, SortedMap.findEntry_cons, runPostings, same]
      · simp [gatherFrom, SortedMap.findEntry_cons, runPostings, same, Ne.symm same]
  | cons run rest ih =>
      obtain ⟨below, restSorted⟩ := List.pairwise_cons.mp sorted
      have runAbove := above run List.mem_cons_self
      rw [gatherFrom]
      by_cases joined : run.word = first
      · rw [if_pos joined, ih restSorted fun other member =>
          above other (List.mem_cons_of_mem _ member)]
        by_cases same : word = first
        · simp [runPostings, same, joined]
        · have different : ¬ run.word = word := fun equal => same (equal.symm.trans joined)
          simp [runPostings, same, different]
      · have strict : first < run.word := lt_of_le_of_ne runAbove (Ne.symm joined)
        rw [if_neg joined, SortedMap.findEntry_cons, ih restSorted below]
        by_cases same : word = first
        · subst same
          have absent : runPostings word (run :: rest) = [] := by
            rw [runPostings, List.map_eq_nil_iff, List.filter_eq_nil_iff]
            intro other member equal
            have equal := of_decide_eq_true equal
            rcases List.mem_cons.mp member with rfl | later
            · exact joined equal
            · have order := below other later
              rw [equal] at order
              exact absurd strict (not_lt.mpr order)
          simp [absent]
        · rw [if_neg (Ne.symm same), if_neg same]
          by_cases next : word = run.word
          · simp [runPostings, next]
          · simp [runPostings, next, Ne.symm next]

/-- The joined runs come in the order of their words. -/
theorem sorted_gatherFrom {first : Word} {gathered : List Posting} {runs : List TermRun}
    (sorted : runs.Pairwise fun left right => left.word ≤ right.word)
    (above : ∀ run ∈ runs, first ≤ run.word) :
    (gatherFrom first gathered runs).Pairwise (fun left right => left.1 < right.1) ∧
      ∀ term ∈ gatherFrom first gathered runs, first ≤ term.1 := by
  induction runs generalizing first gathered with
  | nil => simp [gatherFrom]
  | cons run rest ih =>
      obtain ⟨below, restSorted⟩ := List.pairwise_cons.mp sorted
      have runAbove := above run List.mem_cons_self
      rw [gatherFrom]
      by_cases joined : run.word = first
      · rw [if_pos joined]
        exact ih restSorted fun other member => above other (List.mem_cons_of_mem _ member)
      · have strict : first < run.word := lt_of_le_of_ne runAbove (Ne.symm joined)
        obtain ⟨increasing, bounded⟩ := @ih _ run.postings restSorted below
        rw [if_neg joined]
        refine ⟨List.pairwise_cons.mpr ⟨fun term member => ?_, increasing⟩, fun term member => ?_⟩
        · exact strict.trans_le (bounded term member)
        · rcases List.mem_cons.mp member with rfl | later
          · exact le_rfl
          · exact strict.le.trans (bounded term later)

theorem findEntry_gather {runs : List TermRun}
    (sorted : runs.Pairwise fun left right => left.word ≤ right.word) (word : Word) :
    SortedMap.findEntry word (gather runs) =
      if runPostings word runs = [] then none else some (runPostings word runs).flatten := by
  cases runs with
  | nil => rfl
  | cons run rest =>
      obtain ⟨below, restSorted⟩ := List.pairwise_cons.mp sorted
      rw [gather, findEntry_gatherFrom restSorted below]
      by_cases same : word = run.word
      · simp [runPostings, same]
      · simp [runPostings, same, Ne.symm same]

theorem sorted_gather {runs : List TermRun}
    (sorted : runs.Pairwise fun left right => left.word ≤ right.word) :
    (gather runs).Pairwise fun left right => left.1 < right.1 := by
  cases runs with
  | nil => exact List.Pairwise.nil
  | cons run rest =>
      obtain ⟨below, restSorted⟩ := List.pairwise_cons.mp sorted
      exact (sorted_gatherFrom restSorted below).1

/-! ## Merging postings -/

/-- Postings of different documents are left as they are. -/
theorem mergePostings_of_sorted {postings : List Posting}
    (increasing : postings.Pairwise fun first second => first.fileId < second.fileId) :
    mergePostings postings = postings := by
  have kept : ∀ (rest : List Posting) (posting : Posting),
      (posting :: rest).Pairwise (fun first second => first.fileId < second.fileId) →
      mergeFrom posting.fileId (min 65535 (0 + posting.cnt.toNat)) rest = posting :: rest := by
    intro rest
    induction rest with
    | nil =>
        intro posting _
        have bound := posting.cnt.toNat_lt
        have small : min 65535 (0 + posting.cnt.toNat) = posting.cnt.toNat := by omega
        rw [mergeFrom, small, UInt16.ofNat_toNat]
    | cons next others ih =>
        intro posting sorted
        obtain ⟨below, restSorted⟩ := List.pairwise_cons.mp sorted
        have different : next.fileId ≠ posting.fileId := (below next List.mem_cons_self).ne'
        have bound := posting.cnt.toNat_lt
        have small : min 65535 (0 + posting.cnt.toNat) = posting.cnt.toNat := by omega
        rw [mergeFrom, if_neg different, ih next restSorted, small, UInt16.ofNat_toNat]
  cases postings with
  | nil => rfl
  | cons posting rest => exact kept rest posting increasing

theorem fileId_of_postingOf {oem : OemTable} {files : List SourceFile} {word : Word}
    {fileId : FileId} {posting : Posting} (found : postingOf oem files word fileId = some posting) :
    posting.fileId = fileId := by
  obtain ⟨_, _, rfl⟩ := Option.map_eq_some_iff.mp found
  rfl

/-- The postings of the corpus come in the order of the documents. -/
theorem sorted_postingsFor (oem : OemTable) (files : List SourceFile) (word : Word) (count : Nat) :
    (postingsFor oem files word (List.range count)).Pairwise fun first second =>
      first.fileId < second.fileId := by
  rw [postingsFor, List.pairwise_filterMap]
  refine List.pairwise_lt_range.imp fun less first firstOf second secondOf => ?_
  rw [fileId_of_postingOf firstOf, fileId_of_postingOf secondOf]
  exact less

/-- Any sort of the postings of all documents, whatever their order, is the
posting list of the corpus. -/
theorem mergePostings_sort (sortPostings : StdSort Posting.fileId) {oem : OemTable}
    {files : List SourceFile} {word : Word} {postings : List Posting} {count : Nat}
    (same : postings.Perm (postingsFor oem files word (List.range count))) :
    mergePostings (sortPostings.sort postings) = postingsFor oem files word (List.range count) := by
  have increasing := sorted_postingsFor oem files word count
  have equal : sortPostings.sort postings = postingsFor oem files word (List.range count) := by
    refine ((sortPostings.perm postings).trans same).eq_of_pairwise
      (fun first second firstListed secondListed less greater => ?_)
      (sortPostings.sorted postings) (increasing.imp fun less => less.le)
    have inCorpus := ((sortPostings.perm postings).trans same).mem_iff.mp firstListed
    have distinct : ((postingsFor oem files word (List.range count)).map Posting.fileId).Nodup := by
      rw [List.nodup_iff_pairwise_ne, List.pairwise_map]
      exact increasing.imp fun less => less.ne
    exact List.inj_on_of_nodup_map distinct inCorpus secondListed (le_antisymm less greater)
  rw [equal, mergePostings_of_sorted increasing]

/-! ## The merge is the corpus -/

/-- The runs of a word in all dictionaries. -/
theorem runPostings_termRuns (word : Word) (dictionaries : List LocalDictionary) :
    runPostings word (termRuns dictionaries) =
      dictionaries.filterMap fun dictionary => dictionary.find? word := by
  induction dictionaries with
  | nil => rfl
  | cons dictionary rest ih =>
      have one : runPostings word (dictionary.entries.map fun entry => ⟨entry.1, entry.2⟩) =
          (dictionary.find? word).toList := by
        have nodup := SortedMap.keys_nodup dictionary
        rw [SortedMap.keys] at nodup
        rw [SortedMap.find?]
        generalize dictionary.entries = entries at nodup
        induction entries with
        | nil => rfl
        | cons entry others ihEntries =>
            obtain ⟨fresh, distinct⟩ := List.nodup_cons.mp nodup
            have later := ihEntries distinct
            rw [SortedMap.findEntry_cons]
            by_cases same : entry.1 = word
            · have absent : SortedMap.findEntry word others = none := by
                by_contra present
                obtain ⟨list, found⟩ := Option.ne_none_iff_exists'.mp present
                exact fresh (List.mem_map.mpr
                  ⟨_, SortedMap.mem_of_findEntry_eq_some found, same.symm⟩)
              rw [absent] at later
              have noOther : (others.map fun entry : Word × List Posting =>
                  (⟨entry.1, entry.2⟩ : TermRun)).filter (fun run => run.word = word) = [] :=
                List.map_eq_nil_iff.mp later
              rw [if_pos same, runPostings, List.map_cons, List.filter_cons_of_pos (by simp [same]),
                noOther]
              rfl
            · rw [if_neg same, ← later, runPostings, List.map_cons,
                List.filter_cons_of_neg (by simp [same])]
              rfl
      have split : runPostings word (termRuns (dictionary :: rest)) =
          runPostings word (dictionary.entries.map fun entry => ⟨entry.1, entry.2⟩) ++
            runPostings word (termRuns rest) := by
        simp [runPostings, termRuns]
      rw [split, one, ih]
      cases found : dictionary.find? word <;> simp [found]

theorem postingsFor_flatMap (oem : OemTable) (files : List SourceFile) (word : Word)
    {Worker : Type} (workers : List Worker) (documents : Worker → List FileId) :
    postingsFor oem files word (workers.flatMap documents) =
      workers.flatMap fun worker => postingsFor oem files word (documents worker) := by
  induction workers with
  | nil => rfl
  | cons worker rest ih =>
      rw [List.flatMap_cons, List.flatMap_cons, ← ih, postingsFor, List.filterMap_append]
      rfl

/-- Dictionaries that together list every document once merge to the corpus,
whatever the order of the runs and the choices of the sorts. -/
theorem mergeDictionaries_eq_corpus (sortRuns : StdSort TermRun.word)
    (sortPostings : StdSort Posting.fileId) {oem : OemTable} {files : List SourceFile}
    {Worker : Type} (workers : List Worker) (dictionary : Worker → LocalDictionary)
    (documents : Worker → List FileId)
    (lists : ∀ worker, Lists oem files (dictionary worker) (documents worker))
    (every : (workers.flatMap documents).Perm (List.range files.length)) :
    mergeDictionaries sortRuns sortPostings (workers.map dictionary) =
      (corpus oem files).entries := by
  have runsSorted := sortRuns.sorted (termRuns (workers.map dictionary))
  have increasing : (mergeDictionaries sortRuns sortPostings (workers.map dictionary)).Pairwise
      fun left right => left.1 < right.1 := by
    rw [mergeDictionaries, List.pairwise_map]
    exact sorted_gather runsSorted
  have equal : (⟨_, increasing⟩ : LocalDictionary) = corpus oem files := by
    apply SortedMap.ext_find?
    intro word
    have runs : (runPostings word (sortRuns.sort (termRuns (workers.map dictionary)))).Perm
        ((workers.map dictionary).filterMap fun dictionary => dictionary.find? word) := by
      rw [← runPostings_termRuns]
      exact ((sortRuns.perm _).filter _).map _
    have together : ((workers.map dictionary).filterMap fun dictionary =>
        dictionary.find? word).flatten.Perm
          (postingsFor oem files word (List.range files.length)) := by
      have joined : ((workers.map dictionary).filterMap fun dictionary =>
          dictionary.find? word).flatten =
            postingsFor oem files word (workers.flatMap documents) := by
        rw [postingsFor_flatMap]
        clear increasing runsSorted runs every
        induction workers with
        | nil => rfl
        | cons worker rest ih =>
            rw [List.map_cons, List.filterMap_cons, lists worker word, List.flatMap_cons, ← ih]
            split <;> simp_all
      rw [joined]
      exact every.filterMap _
    have empty : runPostings word (sortRuns.sort (termRuns (workers.map dictionary))) = [] ↔
        postingsFor oem files word (List.range files.length) = [] := by
      rw [← List.length_eq_zero_iff, runs.length_eq, List.length_eq_zero_iff]
      constructor
      · intro none
        rw [none] at together
        exact together.symm.eq_nil
      · intro none
        rw [none] at together
        have flat := together.eq_nil
        rw [List.flatten_eq_nil_iff] at flat
        rw [List.filterMap_eq_nil_iff]
        intro stored member
        obtain ⟨worker, inWorkers, rfl⟩ := List.mem_map.mp member
        have listed := lists worker word
        split at listed
        · exact listed
        · rename_i filled
          exact absurd (flat _ (List.mem_filterMap.mpr ⟨_, member, listed⟩)) filled
    have mapped : ∀ terms : List (Word × List Posting),
        SortedMap.findEntry word (terms.map fun term =>
          (term.1, mergePostings (sortPostings.sort term.2))) =
          (SortedMap.findEntry word terms).map fun postings =>
            mergePostings (sortPostings.sort postings) := by
      intro terms
      induction terms with
      | nil => rfl
      | cons term rest ih =>
          rw [List.map_cons, SortedMap.findEntry_cons, SortedMap.findEntry_cons, ih]
          split <;> rfl
    have lookup : (⟨_, increasing⟩ : LocalDictionary).find? word =
        (SortedMap.findEntry word (gather (sortRuns.sort (termRuns (workers.map dictionary))))).map
          fun postings => mergePostings (sortPostings.sort postings) := mapped _
    rw [lists_corpus oem files word, lookup, findEntry_gather runsSorted]
    by_cases none : postingsFor oem files word (List.range files.length) = []
    · rw [if_pos (empty.mpr none), if_pos none]
      rfl
    · rw [if_neg (mt empty.mp none), if_neg none, Option.map_some]
      exact congrArg some (mergePostings_sort sortPostings (runs.flatten.trans together))
  exact congrArg SortedMap.entries equal

end SearchEngine.Batch
