import SearchEngine.Index.MirrorRuns

/-!
# Word numbers of a mirrored run

The mirror keeps every word row it ever got, and a batch is written under the numbers that the
index gives its words. Without compaction both number the words alike (`NumbersMatch`). A
compaction keeps that for the remaining words (`NumbersKept`) if only the last numbers are
without postings; the rows of the dropped words stay behind, so their numbers may only go back
to the words that lost them (`GivesBack`).
-/

namespace SearchEngine.Index

open SearchEngine.Lib

namespace System

variable {oem : OemTable} {s next : System} {history : History}

/-! ## Numbers of a batch -/

/-- The words of the index have there the numbers of their rows in the mirror. -/
structure NumbersKept (words : WordId → Option Word) (ids : WordIdManager) : Prop where
  lookup : ∀ word, word ≠ [] → ∀ wordId,
    ids.tryGet word = some wordId ↔ Database.IsFirstRow words word wordId ∧ wordId < ids.size

/-- Index and mirror number the same words. -/
structure NumbersMatch (words : WordId → Option Word) (ids : WordIdManager) : Prop extends
    NumbersKept words ids where
  free : ∀ wordId, ids.size ≤ wordId → words wordId = none

/-- A new word that gets a number with a row is the word of that row. -/
def GivesBack (words : WordId → Option Word) (ids : WordIdManager) (list : List Word) : Prop :=
  ∀ entry ∈ (ids.newWords list).zipIdx ids.size, ∀ lost ∈ words entry.2, lost = entry.1

instance (words : WordId → Option Word) (ids : WordIdManager) (list : List Word) :
    Decidable (GivesBack words ids list) :=
  inferInstanceAs (Decidable (∀ _ ∈ _, ∀ _ ∈ _, _))

/-- A word with a row has a first row. -/
theorem exists_isFirstRow {words : WordId → Option Word} {word : Word} {wordId : WordId}
    (row : words wordId = some word) : ∃ first, Database.IsFirstRow words word first := by
  classical
  have listed : ∃ number, words number = some word := ⟨wordId, row⟩
  exact ⟨Nat.find listed, Nat.find_spec listed, fun _ less => Nat.find_min listed less⟩

section Numbers

variable {words : WordId → Option Word} {index : InvertedIndex} {fileId : FileId} {list : List (Word × UInt32)}

theorem NumbersMatch.givesBack (numbers : NumbersMatch words index.wordIds) (list : List Word) :
    GivesBack words index.wordIds list := by
  intro entry member lost row
  rw [numbers.free entry.2 (List.mk_mem_zipIdx_iff_le_and_getElem?_sub.mp member).1] at row
  cases row

theorem GivesBack.row (givesBack : GivesBack words index.wordIds (list.map Prod.fst))
    (distinct : (list.map Prod.fst).Nodup) {wordId : WordId} (above : index.wordIds.size ≤ wordId) {new : Word}
    (listed : (index.passWords fileId list).wordIds.byId wordId = some new) : ∀ lost ∈ words wordId, lost = new := by
  rw [passWords_wordIds] at listed
  exact givesBack _ (WordIdManager.mem_zipIdx_newWords distinct above listed)

/-- A word behind the old numbers is a new word of the batch under its number. -/
theorem number_of_byId (distinct : (list.map Prod.fst).Nodup) {wordId : WordId} (above : index.wordIds.size ≤ wordId)
    {new : Word} (listed : (index.passWords fileId list).wordIds.byId wordId = some new) :
    new ∈ list.map Prod.fst ∧ index.wordIds.tryGet new = none ∧
      (index.passWords fileId list).wordIds.tryGet new = some wordId := by
  have spec := InvertedIndex.passSpec_passWords index fileId distinct
  exact (spec.offered wordId new).mp (spec.byId_new wordId new above listed)

theorem exists_byId {ids : WordIdManager} {wordId : WordId} (bound : wordId < ids.size) :
    ∃ word, ids.byId wordId = some word :=
  ⟨_, List.getElem?_eq_getElem bound⟩

theorem NumbersKept.aligned (numbers : NumbersKept words index.wordIds) (fileId : FileId)
    (givesBack : GivesBack words index.wordIds (list.map Prod.fst)) (distinct : (list.map Prod.fst).Nodup)
    (tokens : ∀ entry ∈ list, entry.1 ≠ []) :
    MirrorInvariant.Aligned words index.wordIds (index.passWords fileId list).wordIds list := by
  have spec := InvertedIndex.passSpec_passWords index fileId distinct
  intro entry member wordId number
  have token := tokens entry member
  cases known : index.wordIds.tryGet entry.1 with
  | some old =>
      obtain rfl : old = wordId := Option.some.inj ((spec.kept _ _ known).symm.trans number)
      obtain ⟨⟨row, noEarlier⟩, -⟩ := (numbers.lookup entry.1 token old).mp known
      exact ⟨.inl row, noEarlier⟩
  | none =>
      have above := spec.fresh _ _ known number
      have back := givesBack.row distinct above (WordIdManager.byId_of_tryGet number)
      constructor
      · cases stored : words wordId with
        | none => exact .inr ⟨rfl, rfl⟩
        | some lost => exact .inl (congrArg some (back lost stored))
      · intro earlier less stored
        by_cases old : earlier < index.wordIds.size
        · obtain ⟨first, isFirst⟩ := exists_isFirstRow stored
          have before : first ≤ earlier := not_lt.mp fun later => isFirst.2 earlier later stored
          rw [(numbers.lookup entry.1 token first).mpr ⟨isFirst, before.trans_lt old⟩] at known
          cases known
        · -- another new word of the batch got that number
          have inside := less.trans (WordIdManager.lt_size_of_tryGet number)
          obtain ⟨new, listed⟩ := exists_byId inside
          obtain rfl := givesBack.row distinct (not_lt.mp old) listed _ stored
          have same := (number_of_byId distinct (not_lt.mp old) listed).2.2
          exact absurd less (Option.some.inj (same.symm.trans number) ▸ lt_irrefl _)

/-- A batch extends both numberings alike. -/
theorem NumbersKept.batch (numbers : NumbersKept words index.wordIds)
    (givesBack : GivesBack words index.wordIds (list.map Prod.fst)) (distinct : (list.map Prod.fst).Nodup)
    (tokens : ∀ entry ∈ list, entry.1 ≠ []) :
    NumbersKept (addRows words (index.passWords fileId list).newWords) (index.passWords fileId list).wordIds := by
  have spec := InvertedIndex.passSpec_passWords index fileId distinct
  have aligned := numbers.aligned fileId givesBack distinct tokens
  constructor
  intro word token wordId
  by_cases new : word ∈ list.map Prod.fst ∧ index.wordIds.tryGet word = none
  · obtain ⟨entry, member, rfl⟩ := List.mem_map.mp new.1
    constructor
    · exact fun number =>
        ⟨MirrorInvariant.isFirstRow_of_listed spec aligned member number, WordIdManager.lt_size_of_tryGet number⟩
    · rintro ⟨first, -⟩
      obtain ⟨number, found, _⟩ := spec.numbered entry member
      rw [first.unique (MirrorInvariant.isFirstRow_of_listed spec aligned member found), found]
  · have known := not_and_or.mp new
    have sameNumber : (index.passWords fileId list).wordIds.tryGet word = index.wordIds.tryGet word := by
      rcases known with unlisted | registered
      · exact spec.unchanged word unlisted
      · obtain ⟨old, found⟩ := Option.ne_none_iff_exists'.mp registered
        rw [found, spec.kept word old found]
    rw [MirrorInvariant.isFirstRow_addRows_iff spec known, sameNumber, numbers.lookup word token]
    refine and_congr_right fun first => ⟨fun bound => bound.trans_le spec.size_le, fun bound => ?_⟩
    by_contra above
    obtain ⟨other, listed⟩ := exists_byId bound
    obtain rfl := givesBack.row distinct (not_lt.mp above) listed _ first.1
    obtain ⟨member, fresh, -⟩ := number_of_byId distinct (not_lt.mp above) listed
    exact new ⟨member, fresh⟩

theorem NumbersMatch.batch (numbers : NumbersMatch words index.wordIds) (distinct : (list.map Prod.fst).Nodup)
    (tokens : ∀ entry ∈ list, entry.1 ≠ []) :
    NumbersMatch (addRows words (index.passWords fileId list).newWords) (index.passWords fileId list).wordIds where
  toNumbersKept := numbers.toNumbersKept.batch (numbers.givesBack _) distinct tokens
  free := by
    have spec := InvertedIndex.passSpec_passWords index fileId distinct
    intro wordId above
    rw [addRows, numbers.free wordId (spec.size_le.trans above), Option.none_or]
    by_contra present
    obtain ⟨word, found⟩ := Option.ne_none_iff_exists'.mp present
    have offered := (spec.offered wordId word).mp (SortedMap.mem_of_findEntry_eq_some found)
    exact absurd (WordIdManager.lt_size_of_tryGet offered.2.2) (not_lt.mpr above)

end Numbers

/-! ## Numbers after a compaction -/

/-- No word with postings has a greater number than a word without. -/
def HolesLast (index : InvertedIndex) : Prop :=
  ∀ wordId < index.wordIds.size, (index.activePosting wordId).entries ≠ [] →
    ∀ earlier < wordId, (index.activePosting earlier).entries ≠ []

instance (index : InvertedIndex) : Decidable (HolesLast index) :=
  inferInstanceAs (Decidable (∀ wordId < index.wordIds.size, _ → ∀ earlier < wordId, _))

/-- A filter that keeps with a number all smaller ones cuts the numbers off. -/
theorem filter_range_eq_range {keeps : Nat → Bool} (n : Nat)
    (down : ∀ k < n, keeps k = true → ∀ j < k, keeps j = true) :
    ∃ m, (List.range n).filter keeps = List.range m := by
  induction n with
  | zero => exact ⟨0, rfl⟩
  | succ n ih =>
      rw [List.range_succ, List.filter_append]
      cases last : keeps n with
      | true =>
          have all : (List.range n).filter keeps = List.range n :=
            List.filter_eq_self.mpr fun k member => down n (Nat.lt_succ_self n) last k (List.mem_range.mp member)
          exact ⟨n + 1, by rw [all, List.range_succ]; simp [last]⟩
      | false =>
          obtain ⟨m, cut⟩ := ih fun k less => down k (less.trans (Nat.lt_succ_self n))
          exact ⟨m, by rw [cut]; simp [last]⟩

theorem keptIds_eq_range {index : InvertedIndex} (last : HolesLast index) :
    ∃ m, InvertedIndex.keptIds index.rebuiltDictionary index.wordIds.size = List.range m := by
  refine filter_range_eq_range _ fun k bound kept j less => ?_
  have here := InvertedIndex.mem_keptIds_rebuilt.mp (List.mem_filter.mpr ⟨List.mem_range.mpr bound, kept⟩)
  have there : j ∈ InvertedIndex.keptIds index.rebuiltDictionary index.wordIds.size :=
    InvertedIndex.mem_keptIds_rebuilt.mpr ⟨less.trans here.1, last k here.1 here.2 j less⟩
  exact (List.mem_filter.mp there).2

/-- A compaction that drops the last numbers leaves the others as they are. -/
theorem NumbersKept.compacted {words : WordId → Option Word} {index : InvertedIndex}
    (numbers : NumbersKept words index.wordIds) (last : HolesLast index)
    (resolve : index.KeptResolve index.rebuiltDictionary) :
    NumbersKept words (index.compacted index.rebuiltDictionary).wordIds := by
  obtain ⟨m, kept⟩ := keptIds_eq_range last
  have size : (index.compacted index.rebuiltDictionary).wordIds.size = m :=
    (List.length_map _).trans (by rw [kept, List.length_range])
  constructor
  intro word token wordId
  rw [InvertedIndex.tryGet_compacted resolve, kept, size]
  constructor
  · rintro ⟨old, listed, number⟩
    obtain ⟨bound, rfl⟩ := List.getElem?_eq_some_iff.mp listed
    rw [List.getElem_range] at number
    exact ⟨((numbers.lookup word token wordId).mp number).1, by simpa using bound⟩
  · rintro ⟨first, bound⟩
    have member : wordId ∈ InvertedIndex.keptIds index.rebuiltDictionary index.wordIds.size :=
      kept ▸ List.mem_range.mpr bound
    exact ⟨wordId, List.getElem?_range bound, (numbers.lookup word token wordId).mpr
      ⟨first, (InvertedIndex.mem_keptIds_rebuilt.mp member).1⟩⟩

/-! ## Numbers of a step -/

theorem mirrorWords_queueMarks (s : System) (ids : List FileId) :
    ({ s with queue := s.queue ++ ids.map .markDeleted } : System).mirrorWords = s.mirrorWords := by
  have noOffers : (ids.map LiveMirrorOp.markDeleted).flatMap LiveMirrorOp.newWords = [] := by
    simp [LiveMirrorOp.newWords]
  rw [mirrorWords_enqueue, noOffers]
  funext wordId
  exact Option.or_none

/-- What a step does to the numbers: nothing, or it processes a batch or renumbers words. -/
inductive NumbersStep (s : System) : Action → System → Prop where
  | same {action : Action} {next : System} (words : next.mirrorWords = s.mirrorWords)
      (ids : next.index.wordIds = s.index.wordIds) : NumbersStep s action next
  | batch {order : IterationOrder} {batch : PostingBatch} {rest : List StrandTask} {next : System}
      (front : s.strand = .processBatch batch :: rest)
      (words : next.mirrorWords = addRows s.mirrorWords (s.index.passWords batch.fileId batch.list).newWords)
      (ids : next.index.wordIds = (s.index.passWords batch.fileId batch.list).wordIds) :
      NumbersStep s (.runStrand order) next
  | compacted {order : IterationOrder} {thresholdPercent : ℚ} {rest : List StrandTask} {next : System}
      (front : s.strand = .compact thresholdPercent :: rest) (renumbers : s.Renumbers thresholdPercent)
      (words : next.mirrorWords = s.mirrorWords)
      (ids : next.index.wordIds = (s.index.compacted s.index.rebuiltDictionary).wordIds) :
      NumbersStep s (.runStrand order) next

theorem numbersStep_runStrand {order : IterationOrder} (keeps : s.KeepsMirror (.runStrand order))
    (done : s.runStrand order = some next) : NumbersStep s (.runStrand order) next := by
  unfold System.runStrand at done
  cases front : s.strand with
  | nil =>
      rw [front] at done
      cases done
  | cons task rest =>
      rw [front] at done
      have taskKeeps := keeps task (by rw [front]; rfl)
      cases task with
      | upsert ticket path metadata =>
          obtain rfl := Option.some.inj done
          have sameIds : (({ s with strand := rest } : System).runUpsert ticket path
              metadata).index.wordIds = s.index.wordIds := by
            simp only [System.runUpsert]
            split
            · dsimp only
              split
              · exact (InvertedIndex.PostingsInvariant.wordIds_safeErase _ _).1
              · rfl
            · rfl
          have sameWords : (({ s with strand := rest } : System).runUpsert ticket path
              metadata).mirrorWords = s.mirrorWords := by
            simp only [System.runUpsert]
            split <;> rfl
          exact .same sameWords sameIds
      | softDelete ticket id path =>
          obtain ⟨flushed, flush, rfl⟩ := Option.map_eq_some_iff.mp done
          have marked : ({ s with strand := rest, queue := s.queue ++ [.markDeleted id] } :
              System).FlushKeepsRows order (s.queue ++ [.markDeleted id]) := taskKeeps
          obtain ⟨words, _⟩ := mirror_flush marked flush
          obtain ⟨db, _, rfl⟩ := flushPending_eq flush
          exact .same (words.trans (mirrorWords_queueMarks s [id])) rfl
      | processBatch batch =>
          obtain ⟨filled, _, keepsRows⟩ := taskKeeps
          simp only [runProcessBatch_eq _ _ _ filled] at done
          split at done
          · rename_i required
            obtain ⟨flushed, flush, rfl⟩ := Option.map_eq_some_iff.mp done
            obtain ⟨flushedWords, _⟩ := mirror_flush (keepsRows required) flush
            obtain ⟨db, _, rfl⟩ := flushPending_eq flush
            exact .batch front (flushedWords.trans (mirrorWords_staged s batch rest)) rfl
          · obtain rfl := Option.some.inj done
            exact .batch front (mirrorWords_staged s batch rest) rfl
      | compact thresholdPercent =>
          obtain rfl := Option.some.inj done
          by_cases renumbers : s.Renumbers thresholdPercent
          · refine .compacted front renumbers ?_ ?_
            · simp only [System.runCompact]
              split <;> rfl
            · simp [System.runCompact, InvertedIndex.compact, renumbers.1, renumbers.2]
          · refine .same ?_ ?_
            · simp only [System.runCompact]
              split <;> rfl
            · simp only [System.runCompact, InvertedIndex.compact]
              split
              · rfl
              · rename_i idle
                rw [if_neg fun runs => renumbers ⟨Bool.eq_false_iff.mpr idle, runs⟩]

theorem numbersStep_of_step {action : Action} (coherent : s.Coherent history) (keeps : s.KeepsMirror action)
    (done : s.step oem action = some next) : NumbersStep s action next := by
  have sameIndex := prepareLegacyMutableState_of_flat coherent.postings.flat
  have flushed : ∀ (order : IterationOrder) (after : System), s.FlushKeepsRows order s.queue →
      s.flushPending order = some after → NumbersStep s action after := by
    intro order after keepsRows flush
    obtain ⟨words, _⟩ := mirror_flush keepsRows flush
    obtain ⟨db, _, rfl⟩ := flushPending_eq flush
    exact .same words rfl
  cases action with
  | enqueueFileUpdate path found =>
      simp only [System.step, System.enqueueFileUpdate, sameIndex] at done
      split at done
      · cases done
      cases found with
      | none =>
          obtain rfl := Option.some.inj done
          exact .same rfl rfl
      | some metadata =>
          obtain rfl := Option.some.inj done
          exact .same rfl rfl
  | enqueueFileDeletion path =>
      simp only [System.step, System.enqueueFileDeletion] at done
      split at done
      · cases done
      split at done
      · obtain rfl := Option.some.inj done
        exact .same rfl rfl
      · obtain rfl := Option.some.inj done
        exact .same rfl rfl
  | compact thresholdPercent =>
      obtain rfl := Option.some.inj done
      exact .same rfl rfl
  | updateDocumentBase paths stat =>
      obtain ⟨_, _, rfl | ⟨diff, _, rfl⟩⟩ := updateDocumentBase_cases done
      · exact .same rfl (congrArg InvertedIndex.wordIds sameIndex)
      · refine .same (mirrorWords_queueMarks s diff.removed) ?_
        rw [sameIndex]
        exact wordIds_foldl_safeErase _ s.index
  | finishUpdate order =>
      simp only [System.step, System.finishUpdate] at done
      split at done
      · obtain ⟨after, flush, rfl⟩ := Option.map_eq_some_iff.mp done
        obtain ⟨words, _⟩ := mirror_flush keeps flush
        obtain ⟨db, _, rfl⟩ := flushPending_eq flush
        exact .same words rfl
      · cases done
  | runStrand order => exact numbersStep_runStrand keeps done
  | runIndexing position content list =>
      obtain ⟨task, _, _, ⟨_, rfl⟩ | ⟨bytes, _, _, rfl⟩⟩ := runIndexing_cases done
      · exact .same rfl rfl
      · exact .same rfl rfl
  | runCommit position =>
      obtain ⟨groups, _, rfl⟩ := Option.map_eq_some_iff.mp done
      exact .same rfl rfl
  | writeQueue order => exact flushed order next keeps done

/-! ## Runs without compaction -/

/-- No compaction is posted. -/
def NoCompaction (s : System) : Prop := ∀ thresholdPercent, StrandTask.compact thresholdPercent ∉ s.strand

/-- The action does not request a compaction. -/
def Uncompacted : Action → Prop
  | .compact _ => False
  | _ => True

theorem NoCompaction.step {action : Action} (clean : s.NoCompaction) (uncompacted : Uncompacted action)
    (done : s.step oem action = some next) : next.NoCompaction := by
  have posted : ∀ task : StrandTask, (∀ thresholdPercent, task ≠ .compact thresholdPercent) →
      ∀ thresholdPercent, StrandTask.compact thresholdPercent ∉ s.strand ++ [task] := by
    intro task other thresholdPercent member
    rcases List.mem_append.mp member with old | new
    · exact clean thresholdPercent old
    · exact other thresholdPercent (List.mem_singleton.mp new).symm
  cases action with
  | enqueueFileUpdate path found =>
      simp only [System.step, System.enqueueFileUpdate] at done
      split at done
      · cases done
      cases found with
      | none =>
          obtain rfl := Option.some.inj done
          exact clean
      | some metadata =>
          obtain rfl := Option.some.inj done
          exact posted _ fun _ same => by cases same
  | enqueueFileDeletion path =>
      simp only [System.step, System.enqueueFileDeletion] at done
      split at done
      · cases done
      split at done
      · obtain rfl := Option.some.inj done
        exact clean
      · obtain rfl := Option.some.inj done
        exact posted _ fun _ same => by cases same
  | compact thresholdPercent => exact absurd uncompacted id
  | updateDocumentBase paths stat =>
      obtain ⟨_, _, rfl | ⟨diff, _, rfl⟩⟩ := updateDocumentBase_cases done <;> exact clean
  | finishUpdate order =>
      simp only [System.step, System.finishUpdate] at done
      split at done
      · obtain ⟨flushed, flush, rfl⟩ := Option.map_eq_some_iff.mp done
        obtain ⟨db, _, rfl⟩ := flushPending_eq flush
        exact clean
      · cases done
  | runStrand order =>
      obtain ⟨task, rest, front, sameStrand⟩ := runStrand_strand done
      intro thresholdPercent member
      rw [sameStrand] at member
      exact clean thresholdPercent (front ▸ List.mem_cons_of_mem _ member)
  | runIndexing position content list =>
      obtain ⟨task, _, _, ⟨_, rfl⟩ | ⟨bytes, _, _, rfl⟩⟩ := runIndexing_cases done
      · exact clean
      · exact posted _ fun _ same => by cases same
  | runCommit position =>
      obtain ⟨groups, _, rfl⟩ := Option.map_eq_some_iff.mp done
      exact clean
  | writeQueue order =>
      obtain ⟨db, _, rfl⟩ := flushPending_eq done
      exact clean

theorem NumbersMatch.step {action : Action} (numbers : NumbersMatch s.mirrorWords s.index.wordIds)
    (coherent : s.Coherent history) (clean : s.NoCompaction) (keeps : s.KeepsMirror action)
    (done : s.step oem action = some next) : NumbersMatch next.mirrorWords next.index.wordIds := by
  cases numbersStep_of_step coherent keeps done with
  | same words ids =>
      rw [words, ids]
      exact numbers
  | @batch order batch rest _ front words ids =>
      obtain ⟨distinct, tokens⟩ := coherent.batches batch (front ▸ List.mem_cons_self)
      rw [words, ids]
      exact numbers.batch distinct tokens
  | @compacted order thresholdPercent rest _ front =>
      exact absurd (front ▸ List.mem_cons_self) (clean thresholdPercent)

/-! ## Runs with compactions -/

/-- The condition on the strand task about to run: a compaction renumbers no word that keeps
postings, and new words get back only numbers that they had. -/
def KeepsNumbersStrand (s : System) : StrandTask → Prop
  | .processBatch batch => GivesBack s.mirrorWords s.index.wordIds (batch.list.map Prod.fst)
  | .compact thresholdPercent => s.Renumbers thresholdPercent → HolesLast s.index
  | _ => True

/-- The condition on a step that keeps the numbers of the words. -/
def KeepsNumbers (s : System) : Action → Prop
  | .runStrand _ => ∀ task ∈ s.strand.head?, s.KeepsNumbersStrand task
  | _ => True

instance (s : System) (task : StrandTask) : Decidable (s.KeepsNumbersStrand task) :=
  match task with
  | .processBatch _ => inferInstanceAs (Decidable (GivesBack _ _ _))
  | .compact thresholdPercent => inferInstanceAs (Decidable (s.Renumbers thresholdPercent → HolesLast s.index))
  | .upsert _ _ _ | .softDelete _ _ _ => isTrue trivial

instance (s : System) (action : Action) : Decidable (s.KeepsNumbers action) :=
  match action with
  | .runStrand _ => inferInstanceAs (Decidable (∀ task ∈ s.strand.head?, s.KeepsNumbersStrand task))
  | .enqueueFileUpdate _ _ | .enqueueFileDeletion _ | .compact _ | .updateDocumentBase _ _
  | .finishUpdate _ | .runIndexing _ _ _ | .runCommit _ | .writeQueue _ => isTrue trivial

end System

end SearchEngine.Index
