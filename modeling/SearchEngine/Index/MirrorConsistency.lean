import SearchEngine.Index.KeptNumbers

/-!
# The mirror equals the index

After a run that ends idle with a written queue, a load of the mirror answers
every word as the index in memory does (`LoadsAlike`), provided every step met
the conditions of `MirrorTame`, and with compaction also `KeepsNumbers`. The two
counterexamples show what happens otherwise: a changed file without words keeps
its old postings in the mirror, and a batch after a compaction that gave a word
another number is filed under the numbers of other words.
-/

namespace SearchEngine.Index

open SearchEngine.Lib

namespace System

instance (s : System) (action : Action) : Decidable (s.MirrorTame action) :=
  inferInstanceAs (Decidable (_ ∧ _))

instance (action : Action) : Decidable (Uncompacted action) :=
  match action with
  | .compact _ => isFalse not_false
  | .enqueueFileUpdate _ _ | .enqueueFileDeletion _ | .updateDocumentBase _ _ | .finishUpdate _
  | .runStrand _ | .runIndexing _ _ _ | .runCommit _ | .writeQueue _ => isTrue trivial

variable {oem : OemTable} {storage : CatalogStorage} {db : Database} {precountPostings : Bool}
  {s : System} {actions : List Action} {final : System × History}

theorem numbersMatch_start (started : start storage db precountPostings = some s) :
    NumbersMatch s.mirrorWords s.index.wordIds := by
  obtain ⟨index, loaded, rfl⟩ := Option.map_eq_some_iff.mp started
  have words : System.mirrorWords ⟨openCatalog storage db, index, db, [], [], [], [], false, 0⟩ =
      db.words.find? := by
    funext wordId
    exact Option.or_none
  rw [words, (Database.load_fields loaded).1]
  have size : (WordIdManager.ofList db.wordList).size = db.wordCount := by
    simp [WordIdManager.size, WordIdManager.ofList, Database.wordList]
  have inside : ∀ wordId word, db.words.find? wordId = some word →
      wordId < (WordIdManager.ofList db.wordList).size :=
    fun wordId word found => size ▸ SortedMap.lt_nextKey_of_find? found
  constructor
  case toNumbersKept =>
    refine ⟨fun word token wordId => ?_⟩
    rw [Database.tryGet_wordList_iff token wordId]
    exact ⟨fun first => ⟨first, inside wordId word first.1⟩, And.left⟩
  case free =>
    intro wordId above
    by_contra present
    obtain ⟨word, found⟩ := Option.ne_none_iff_exists'.mp present
    exact absurd (inside wordId word found) (not_lt.mpr above)

theorem NumbersKept.alignedBatch {batch : PostingBatch} {history : History}
    (numbers : NumbersKept s.mirrorWords s.index.wordIds) (coherent : s.Coherent history)
    (listed : StrandTask.processBatch batch ∈ s.strand)
    (givesBack : GivesBack s.mirrorWords s.index.wordIds (batch.list.map Prod.fst)) :
    s.AlignedBatch batch.list := by
  obtain ⟨distinct, tokens⟩ := coherent.batches batch listed
  have aligned := numbers.aligned batch.fileId givesBack distinct tokens
  rw [passWords_wordIds] at aligned
  exact aligned

/-- Without compaction every batch is aligned. -/
theorem conforms_aligned (resolves : db.PostingsResolve)
    (started : start storage db precountPostings = some s)
    (conforms : (monitored oem).Conforms
      (fun state action => state.1.MirrorTame action ∧ Uncompacted action)
      (s, s.loadedHistory) actions) :
    (monitored oem).Conforms
      (fun state action => state.1.MirrorTame action ∧ state.1.AlignedStep action)
      (s, s.loadedHistory) actions := by
  let invariant : System × History → Prop := fun state => state.1.Coherent state.2 ∧
    NumbersMatch state.1.mirrorWords state.1.index.wordIds ∧ state.1.NoCompaction
  have initial : invariant (s, s.loadedHistory) := by
    refine ⟨coherent_start resolves started, numbersMatch_start started, ?_⟩
    obtain ⟨index, _, rfl⟩ := Option.map_eq_some_iff.mp started
    exact fun _ posted => by cases posted
  refine Machine.Conforms.strengthen ?_ ?_ initial conforms
  · rintro ⟨before, recorded⟩ action after ⟨known, numbers, clean⟩ ⟨⟨tame, keeps⟩, uncompacted⟩ taken
    obtain ⟨reached, stepped, rfl⟩ := Option.map_eq_some_iff.mp taken
    exact ⟨known.step tame stepped, numbers.step known clean keeps stepped,
      clean.step uncompacted stepped⟩
  · rintro ⟨before, recorded⟩ action ⟨known, numbers, _⟩ ⟨mirrorTame, _⟩
    refine ⟨mirrorTame, ?_⟩
    cases action with
    | runStrand order =>
        intro task front
        cases task with
        | processBatch batch =>
            have listed : StrandTask.processBatch batch ∈ before.strand := List.mem_of_mem_head? front
            exact numbers.toNumbersKept.alignedBatch known listed (numbers.givesBack _)
        | _ => trivial
    | _ => trivial

/-- The mirror of a run without compaction equals the index, if a document is changed
only after its earlier changes, files have words and counts that fit, files that
cannot be opened have no postings in the mirror, and no batch of the writer
supersedes the first offer of a word row. -/
theorem loadsAlike_of_uncompacted (resolves : db.PostingsResolve)
    (started : start storage db precountPostings = some s)
    (conforms : (monitored oem).Conforms
      (fun state action => state.1.MirrorTame action ∧ Uncompacted action)
      (s, s.loadedHistory) actions)
    (done : (monitored oem).run (s, s.loadedHistory) actions = some final) (idle : final.1.Idle)
    (written : final.1.queue = []) : final.1.LoadsAlike final.2 := by
  have aligned := conforms_aligned resolves started conforms
  obtain ⟨mirrored, coherent⟩ := (mirrored_start resolves started).run
    (coherent_start resolves started) aligned done
  exact mirrored.loadsAlike coherent idle written

/-- Some answer of the loaded mirror differs from the answer of the index. -/
def answersDiffer (s : System) (word : Word) (fileId : FileId) : Bool :=
  (s.db.load true).any fun loaded => decide (loaded.answer word fileId ≠ s.index.answer word fileId)

theorem not_loadsAlike_of_answersDiffer {history : History} {word : Word} {fileId : FileId}
    (differ : s.answersDiffer word fileId = true) : ¬ s.LoadsAlike history := by
  rintro ⟨_, loads, _⟩
  obtain ⟨loaded, done, alike⟩ := loads true
  rw [answersDiffer, done, Option.any_some, decide_eq_true_eq] at differ
  exact differ (by rw [InvertedIndex.answer, InvertedIndex.answer, alike])

/-- A schedule from the empty index that ends idle with a written queue. -/
def settledRun (actions : List Action) (outcome : System → Bool) : Bool :=
  ((monitored .plain).run (emptyStart, emptyStart.loadedHistory) actions).any fun final =>
    decide final.1.Idle && final.1.queue.isEmpty && outcome final.1

theorem exists_of_settledRun {outcome : System → Bool} (computed : settledRun actions outcome = true) :
    ∃ final, (monitored .plain).run (emptyStart, emptyStart.loadedHistory) actions = some final ∧
      final.1.Idle ∧ final.1.queue = [] ∧ outcome final.1 = true := by
  obtain ⟨final, done, facts⟩ := (Option.any_eq_true _ _).mp computed
  simp only [Bool.and_eq_true, decide_eq_true_eq, List.isEmpty_iff] at facts
  exact ⟨final, done, facts.1.1, facts.1.2, facts.2⟩

/-- A file is indexed after an event; a full update then finds it changed and another file new. -/
def changedByScan : List Action :=
  pointUpdate "a".toList ⟨1, 8⟩ (Word.ofAscii "ANNA EVA") ++
    [.updateDocumentBase ["a".toList, "b".toList] fun path => if path = "a".toList then some ⟨2, 3⟩ else some ⟨3, 3⟩,
      .runIndexing 0 (some (Word.ofAscii "LEO")) (batchList .plain (Word.ofAscii "LEO")),
      .runIndexing 0 (some (Word.ofAscii "EVA")) (batchList .plain (Word.ofAscii "EVA")),
      .runStrand .increasing, .runStrand .increasing, .runCommit 1, .runCommit 0, .finishUpdate .increasing]

theorem loadsAlike_of_uncompacted_changedByScan :
    ∃ final, (monitored .plain).run (emptyStart, emptyStart.loadedHistory) changedByScan = some final ∧
      final.1.index.answer (Word.ofAscii "ANNA") 0 = none ∧ final.1.index.answer (Word.ofAscii "EVA") 0 = some 1 ∧
      final.1.index.answer (Word.ofAscii "LEO") 1 = some 1 ∧ final.1.LoadsAlike final.2 := by
  have computed : settledRun changedByScan (fun final =>
      decide (final.index.answer (Word.ofAscii "ANNA") 0 = none ∧
        final.index.answer (Word.ofAscii "EVA") 0 = some 1 ∧
        final.index.answer (Word.ofAscii "LEO") 1 = some 1)) = true := by decide +kernel
  obtain ⟨final, done, idle, written, answers⟩ := exists_of_settledRun computed
  obtain ⟨dropped, kept, new⟩ := of_decide_eq_true answers
  exact ⟨final, done, dropped, kept, new, loadsAlike_of_uncompacted postingsResolve_empty started_emptyStart
    (by decide +kernel) done idle written⟩

/-- A file with a word is changed to a content without words. -/
def wordlessUpdate : List Action :=
  pointUpdate "a".toList ⟨1, 4⟩ (Word.ofAscii "ANNA") ++
    [.enqueueFileUpdate "a".toList (some ⟨2, 0⟩), .runStrand .increasing,
      .runIndexing 0 (some []) [], .runStrand .increasing]

/-- The index forgets the old word, the mirror keeps it. -/
theorem not_loadsAlike_wordlessUpdate :
    (∀ action ∈ wordlessUpdate, Uncompacted action) ∧
      ∃ final, (monitored .plain).run (emptyStart, emptyStart.loadedHistory) wordlessUpdate = some final ∧
        final.1.Idle ∧ final.1.queue = [] ∧ ¬ final.1.LoadsAlike final.2 := by
  refine ⟨by decide, ?_⟩
  have computed : settledRun wordlessUpdate
      (fun final => final.answersDiffer (Word.ofAscii "ANNA") 0) = true := by decide +kernel
  obtain ⟨final, done, idle, written, differ⟩ := exists_of_settledRun computed
  exact ⟨final, done, idle, written, not_loadsAlike_of_answersDiffer differ⟩

/-! ## Compaction -/

theorem NumbersKept.step {action : Action} {history : History} {next : System}
    (numbers : NumbersKept s.mirrorWords s.index.wordIds) (coherent : s.Coherent history) (tame : s.MirrorTame action)
    (keeps : s.KeepsNumbers action) (done : s.step oem action = some next) :
    NumbersKept next.mirrorWords next.index.wordIds := by
  cases numbersStep_of_step coherent tame.2 done with
  | same words ids =>
      rw [words, ids]
      exact numbers
  | @batch order batch rest _ front words ids =>
      obtain ⟨distinct, tokens⟩ := coherent.batches batch (front ▸ List.mem_cons_self)
      have givesBack : s.KeepsNumbersStrand (.processBatch batch) := keeps _ (by rw [front]; rfl)
      rw [words, ids]
      exact numbers.batch givesBack distinct tokens
  | @compacted order thresholdPercent rest _ front renumbers words ids =>
      -- nothing is pending, so every number with postings is that of its word
      have last : s.KeepsNumbersStrand (.compact thresholdPercent) := keeps _ (by rw [front]; rfl)
      have posted : s.TameStrand (.compact thresholdPercent) := tame.1 _ (by rw [front]; rfl)
      have settled : s.pendingTasks = [] := by
        rw [pendingTasks, posted renumbers]
        rfl
      have postings := coherent.postings
      rw [settled] at postings
      rw [words, ids]
      exact numbers.compacted (last renumbers) postings.keptResolve

/-- If every step keeps the numbers, every batch is aligned. -/
theorem conforms_aligned_of_keepsNumbers (resolves : db.PostingsResolve)
    (started : start storage db precountPostings = some s)
    (conforms : (monitored oem).Conforms
      (fun state action => state.1.MirrorTame action ∧ state.1.KeepsNumbers action)
      (s, s.loadedHistory) actions) :
    (monitored oem).Conforms
      (fun state action => state.1.MirrorTame action ∧ state.1.AlignedStep action)
      (s, s.loadedHistory) actions := by
  let invariant : System × History → Prop := fun state => state.1.Coherent state.2 ∧
    NumbersKept state.1.mirrorWords state.1.index.wordIds
  have initial : invariant (s, s.loadedHistory) :=
    ⟨coherent_start resolves started, (numbersMatch_start started).toNumbersKept⟩
  refine Machine.Conforms.strengthen ?_ ?_ initial conforms
  · rintro ⟨before, recorded⟩ action after ⟨known, numbers⟩ ⟨tame, keeps⟩ taken
    obtain ⟨reached, stepped, rfl⟩ := Option.map_eq_some_iff.mp taken
    exact ⟨known.step tame.1 stepped, numbers.step known tame keeps stepped⟩
  · rintro ⟨before, recorded⟩ action ⟨known, numbers⟩ ⟨mirrorTame, keeps⟩
    refine ⟨mirrorTame, ?_⟩
    cases action with
    | runStrand order =>
        intro task front
        cases task with
        | processBatch batch =>
            have listed : StrandTask.processBatch batch ∈ before.strand := List.mem_of_mem_head? front
            exact numbers.alignedBatch known listed (keeps _ front)
        | _ => trivial
    | _ => trivial

/-- With compaction the mirror equals the index if moreover a compaction renumbers no word
that keeps postings, and a number that a word lost goes only to that word again. -/
theorem loadsAlike_of_keptNumbers (resolves : db.PostingsResolve)
    (started : start storage db precountPostings = some s)
    (conforms : (monitored oem).Conforms
      (fun state action => state.1.MirrorTame action ∧ state.1.KeepsNumbers action)
      (s, s.loadedHistory) actions)
    (done : (monitored oem).run (s, s.loadedHistory) actions = some final) (idle : final.1.Idle)
    (written : final.1.queue = []) : final.1.LoadsAlike final.2 := by
  have aligned := conforms_aligned_of_keepsNumbers resolves started conforms
  obtain ⟨mirrored, coherent⟩ := (mirrored_start resolves started).run
    (coherent_start resolves started) aligned done
  exact mirrored.loadsAlike coherent idle written

/-- The last word of a file disappears and comes back after a compaction. -/
def compactedLastWord : List Action :=
  listedUpdate "a".toList ⟨1, 8⟩ (Word.ofAscii "ANNA EVA") evaThenAnna ++
    pointUpdate "a".toList ⟨2, 3⟩ (Word.ofAscii "EVA") ++
    [.compact 0, .runStrand .increasing] ++
    pointUpdate "b".toList ⟨3, 4⟩ (Word.ofAscii "ANNA")

theorem loadsAlike_of_keptNumbers_compactedLastWord :
    ∃ final, (monitored .plain).run (emptyStart, emptyStart.loadedHistory) compactedLastWord =
        some final ∧ final.1.LoadsAlike final.2 := by
  have computed : settledRun compactedLastWord
      (fun final => decide (final.index.wordIds.size = 2)) = true := by decide +kernel
  obtain ⟨final, done, idle, written, _⟩ := exists_of_settledRun computed
  exact ⟨final, done, loadsAlike_of_keptNumbers postingsResolve_empty started_emptyStart
    (by decide +kernel) done idle written⟩

/-- The first word of a file disappears, a compaction renumbers the other, and a new
word of a new file receives the old number of that other word. -/
def compactedFirstWord : List Action :=
  listedUpdate "a".toList ⟨1, 8⟩ (Word.ofAscii "ANNA EVA") evaThenAnna ++
    pointUpdate "a".toList ⟨2, 4⟩ (Word.ofAscii "ANNA") ++
    [.compact 0, .runStrand .increasing] ++
    pointUpdate "b".toList ⟨3, 3⟩ (Word.ofAscii "LEO")

/-- The new word is filed under the row of the other word. -/
theorem not_loadsAlike_compactedFirstWord :
    ∃ final, (monitored .plain).run (emptyStart, emptyStart.loadedHistory) compactedFirstWord =
        some final ∧ final.1.Idle ∧ final.1.queue = [] ∧ ¬ final.1.LoadsAlike final.2 := by
  have computed : settledRun compactedFirstWord
      (fun final => final.answersDiffer (Word.ofAscii "LEO") 1) = true := by decide +kernel
  obtain ⟨final, done, idle, written, differ⟩ := exists_of_settledRun computed
  exact ⟨final, done, idle, written, not_loadsAlike_of_answersDiffer differ⟩

end System

end SearchEngine.Index
