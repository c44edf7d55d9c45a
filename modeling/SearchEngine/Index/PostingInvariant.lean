import SearchEngine.Index.Compact

/-!
# Postings on their way into the index

A posting is stored in the chunks or listed in a commit that has not run yet.
`drained` is the count a word number and a document have once the listed commits
ran. `PostingsInvariant` ties it to the word references and to the counts every
document is expected to have; a document is busy from its erasure to its next
batch. Each operation of the strand and each commit keeps the invariant.
-/

namespace SearchEngine.Index

open SearchEngine.Lib

namespace InvertedIndex

/-- The stored count after the pending postings `tasks`. -/
def drained (index : InvertedIndex) (tasks : List PostingTask) (wordId : WordId) (fileId : FileId) :
    Option UInt16 :=
  DictionaryChunks.addTasks wordId fileId (index.dictionaryChunks.cell wordId fileId) tasks

/-- The answer for a word and a document after the pending postings. -/
def drainedAnswer (index : InvertedIndex) (tasks : List PostingTask) (word : Word) (fileId : FileId) :
    Option UInt16 :=
  (index.wordIds.tryGet word).bind fun wordId => index.drained tasks wordId fileId

/-- No pending posting names the document. -/
def NotPending (tasks : List PostingTask) (fileId : FileId) : Prop :=
  ∀ task ∈ tasks, task.fileId ≠ fileId

theorem drained_eq_cell {index : InvertedIndex} {tasks : List PostingTask} {fileId : FileId}
    (settled : NotPending tasks fileId) (wordId : WordId) :
    index.drained tasks wordId fileId = index.dictionaryChunks.cell wordId fileId :=
  DictionaryChunks.addTasks_of_not_mem fun task member hit => settled task member hit.2

/-- Without pending postings the chunked index answers with the drained counts. -/
theorem answer_eq_drainedAnswer {index : InvertedIndex} (flat : index.dictionary = []) (word : Word)
    (fileId : FileId) : index.answer word fileId = index.drainedAnswer [] word fileId := by
  have active : ∀ wordId, index.activePosting wordId = index.dictionaryChunks.postingList wordId := by
    intro wordId
    rw [activePosting, flat]
    rfl
  rw [answer_eq]
  simp only [active]
  rfl

/-- The postings of a batch reach the cells of its document only. -/
theorem addTasks_batchTasks (widMap : SortedMap WordId UInt32) (wordId : WordId)
    (batchFile fileId : FileId) (stored : Option UInt16) :
    DictionaryChunks.addTasks wordId fileId stored (batchTasks batchFile widMap) =
      if batchFile = fileId then
        ((widMap.find? wordId).map (plusCount (stored.getD 0))).or stored
      else stored := by
  have added : ∀ entries : List (WordId × UInt32), (entries.map Prod.fst).Nodup →
      DictionaryChunks.addTasks wordId fileId stored
          (entries.map fun entry => (⟨batchFile, entry.1, entry.2⟩ : PostingTask)) =
        if batchFile = fileId then
          ((SortedMap.findEntry wordId entries).map (plusCount (stored.getD 0))).or stored
        else stored := by
    intro entries
    induction entries with
    | nil => simp
    | cons entry rest ih =>
        intro distinct
        obtain ⟨fresh, restDistinct⟩ := List.nodup_cons.mp distinct
        rw [List.map_cons, DictionaryChunks.addTasks, List.foldl_cons, ← DictionaryChunks.addTasks,
          SortedMap.findEntry_cons]
        by_cases hit : entry.1 = wordId ∧ batchFile = fileId
        · obtain ⟨rfl, rfl⟩ := hit
          have others : ∀ task ∈ rest.map fun entry => (⟨batchFile, entry.1, entry.2⟩ : PostingTask),
              ¬ (task.wordId = entry.1 ∧ task.fileId = batchFile) := by
            intro task member same
            obtain ⟨other, listed, rfl⟩ := List.mem_map.mp member
            exact fresh (List.mem_map.mpr ⟨other, listed, same.1⟩)
          rw [DictionaryChunks.addTasks_of_not_mem others]
          simp [DictionaryChunks.addTask]
        · have untouched : DictionaryChunks.addTask wordId fileId stored ⟨batchFile, entry.1, entry.2⟩ =
              stored := if_neg hit
          rw [untouched, ih restDistinct]
          by_cases sameFile : batchFile = fileId
          · have differ : entry.1 ≠ wordId := fun same => hit ⟨same, sameFile⟩
            simp [sameFile, differ]
          · simp [sameFile]
  exact added widMap.entries widMap.keys_nodup

/-- The counts a document has after a batch. -/
def batchCounts (list : List (Word × UInt32)) (word : Word) : Option UInt16 :=
  (SortedMap.findEntry word list).map (plusCount 0)

/-- What holds of the index, the pending postings and the expected counts of the
documents between two steps. `bound` is the next free file number. -/
structure PostingsInvariant (index : InvertedIndex) (tasks : List PostingTask) (busy : FileId → Prop)
    (expected : FileId → Word → Option UInt16) (bound : FileId) : Prop where
  flat : index.dictionary = []
  referenced : ∀ fileId wordId,
    wordId ∈ index.refsOf fileId ↔ (index.drained tasks wordId fileId).isSome
  located : ∀ fileId wordId, (index.drained tasks wordId fileId).isSome →
    fileId < bound ∧ ∃ word, index.wordIds.tryGet word = some wordId
  erased : ∀ fileId, busy fileId → ∀ wordId, index.drained tasks wordId fileId = none
  stored : ∀ fileId, ¬ busy fileId → ∀ word,
    index.drainedAnswer tasks word fileId = expected fileId word

namespace PostingsInvariant

variable {index : InvertedIndex} {tasks : List PostingTask} {busy : FileId → Prop}
  {expected : FileId → Word → Option UInt16} {bound : FileId}

/-- The order of the pending postings and the way busy documents are listed do not matter. -/
theorem congr {otherTasks : List PostingTask} {otherBusy : FileId → Prop}
    (invariant : index.PostingsInvariant tasks busy expected bound) (permuted : tasks.Perm otherTasks)
    (sameBusy : ∀ fileId, otherBusy fileId ↔ busy fileId) :
    index.PostingsInvariant otherTasks otherBusy expected bound := by
  have drainedEq : index.drained otherTasks = index.drained tasks := by
    funext wordId fileId
    exact (DictionaryChunks.addTasks_perm permuted).symm
  constructor
  · exact invariant.flat
  · rw [drainedEq]
    exact invariant.referenced
  · rw [drainedEq]
    exact invariant.located
  · intro fileId isBusy
    rw [drainedEq]
    exact invariant.erased fileId ((sameBusy fileId).mp isBusy)
  · intro fileId idle word
    rw [drainedAnswer, drainedEq]
    exact invariant.stored fileId (fun isBusy => idle ((sameBusy fileId).mpr isBusy)) word

theorem mono {larger : FileId} (invariant : index.PostingsInvariant tasks busy expected bound)
    (above : bound ≤ larger) : index.PostingsInvariant tasks busy expected larger :=
  { invariant with
    located := fun fileId wordId present =>
      ⟨(invariant.located fileId wordId present).1.trans_le above,
        (invariant.located fileId wordId present).2⟩ }

/-- A number at or above the bound has no postings. -/
theorem drained_of_le (invariant : index.PostingsInvariant tasks busy expected bound)
    {fileId : FileId} (new : bound ≤ fileId) (wordId : WordId) :
    index.drained tasks wordId fileId = none := by
  by_contra present
  have listed : (index.drained tasks wordId fileId).isSome := Option.isSome_iff_ne_none.mpr present
  exact absurd (invariant.located fileId wordId listed).1 (not_lt.mpr new)

/-- A document without postings becomes busy. -/
theorem claim (invariant : index.PostingsInvariant tasks busy expected bound) {fileId : FileId}
    (noPostings : ∀ wordId, index.drained tasks wordId fileId = none) :
    index.PostingsInvariant tasks (fun other => busy other ∨ other = fileId) expected bound := by
  refine { invariant with erased := ?_, stored := ?_ }
  · rintro other (isBusy | rfl)
    · exact invariant.erased other isBusy
    · exact noPostings
  · intro other idle
    exact invariant.stored other fun isBusy => idle (.inl isBusy)

/-- A busy document ends without a batch. -/
theorem release (invariant : index.PostingsInvariant tasks busy expected bound) {fileId : FileId}
    (isBusy : busy fileId) :
    index.PostingsInvariant tasks (fun other => busy other ∧ other ≠ fileId)
      (Function.update expected fileId fun _ => none) bound := by
  refine { invariant with erased := fun other still => invariant.erased other still.1, stored := ?_ }
  intro other idle word
  by_cases same : other = fileId
  · subst same
    rw [Function.update_self, drainedAnswer]
    simp [invariant.erased other isBusy]
  · rw [Function.update_of_ne same]
    exact invariant.stored other (fun stillBusy => idle ⟨stillBusy, same⟩) word

/-- New numbers become busy. -/
theorem claimAll (fileIds : List FileId) (new : ∀ fileId ∈ fileIds, bound ≤ fileId)
    (invariant : index.PostingsInvariant tasks busy expected bound) :
    index.PostingsInvariant tasks (fun other => busy other ∨ other ∈ fileIds) expected bound := by
  induction fileIds generalizing busy with
  | nil => exact invariant.congr (.refl _) (by simp)
  | cons fileId rest ih =>
      have claimed := invariant.claim (invariant.drained_of_le (new fileId List.mem_cons_self))
      refine (ih (fun later member => new later (List.mem_cons_of_mem _ member)) claimed).congr
        (.refl _) ?_
      intro other
      simp only [List.mem_cons, or_assoc]

/-! ## Erasure -/

theorem refsOf_safeErase (index : InvertedIndex) (fileId other : FileId) :
    (index.safeEraseFileInternal fileId).refsOf other =
      if fileId = other then [] else index.refsOf other := by
  unfold safeEraseFileInternal
  cases found : index.wordRefs.find? fileId with
  | some wordIds => by_cases same : fileId = other <;> simp [refsOf, same]
  | none =>
      by_cases same : fileId = other
      · subst same
        simp [refsOf, found]
      · simp [refsOf, same]

theorem wordIds_safeErase (index : InvertedIndex) (fileId : FileId) :
    (index.safeEraseFileInternal fileId).wordIds = index.wordIds ∧
      (index.safeEraseFileInternal fileId).dictionary = index.dictionary := by
  unfold safeEraseFileInternal
  cases index.wordRefs.find? fileId <;> exact ⟨rfl, rfl⟩

theorem drained_safeErase (invariant : index.PostingsInvariant tasks busy expected bound)
    {fileId : FileId} (settled : NotPending tasks fileId) (wordId : WordId) (other : FileId) :
    (index.safeEraseFileInternal fileId).drained tasks wordId other =
      if fileId = other then none else index.drained tasks wordId other := by
  have erasedCell : (index.safeEraseFileInternal fileId).dictionaryChunks.cell wordId other =
      if fileId = other then none else index.dictionaryChunks.cell wordId other := by
    unfold safeEraseFileInternal
    cases found : index.wordRefs.find? fileId with
    | none => exact DictionaryChunks.cell_eraseEverywhere _ _ _ _
    | some wordIds =>
        rw [DictionaryChunks.cell_eraseReferenced]
        by_cases same : fileId = other
        · subst same
          by_cases listed : wordId ∈ wordIds
          · simp [listed]
          · have unreferenced : wordId ∉ index.refsOf fileId := by simpa [refsOf, found] using listed
            rw [invariant.referenced, drained_eq_cell settled, Option.not_isSome_iff_eq_none]
              at unreferenced
            simp [listed, unreferenced]
        · simp [same]
  by_cases same : fileId = other
  · subst same
    rw [if_pos rfl, drained_eq_cell settled, erasedCell, if_pos rfl]
  · rw [if_neg same, drained, erasedCell, if_neg same, drained]

/-- A document without pending postings is erased and becomes busy. -/
theorem erase (invariant : index.PostingsInvariant tasks busy expected bound) {fileId : FileId}
    (settled : NotPending tasks fileId) :
    (index.safeEraseFileInternal fileId).PostingsInvariant tasks
      (fun other => busy other ∨ other = fileId) expected bound := by
  have drainedEq := invariant.drained_safeErase settled
  obtain ⟨wordIds, dictionary⟩ := wordIds_safeErase index fileId
  constructor
  · rw [dictionary]
    exact invariant.flat
  · intro other wordId
    rw [drainedEq, refsOf_safeErase]
    by_cases same : fileId = other
    · simp [same]
    · simpa [same] using invariant.referenced other wordId
  · intro other wordId present
    rw [drainedEq] at present
    split at present
    · cases present
    · rw [wordIds]
      exact invariant.located other wordId present
  · intro other isBusy wordId
    rw [drainedEq]
    split
    · rfl
    · rename_i different
      exact invariant.erased other (isBusy.resolve_right (Ne.symm different)) wordId
  · intro other idle word
    have different : fileId ≠ other := fun same => idle (.inr same.symm)
    rw [drainedAnswer, wordIds]
    simp only [drainedEq, if_neg different]
    exact invariant.stored other (fun isBusy => idle (.inl isBusy)) word

/-- The erasure loop of a full update. -/
theorem eraseAll (fileIds : List FileId)
    (invariant : index.PostingsInvariant [] busy expected bound) :
    (fileIds.foldl safeEraseFileInternal index).PostingsInvariant []
      (fun other => busy other ∨ other ∈ fileIds) expected bound := by
  induction fileIds generalizing index busy with
  | nil => exact invariant.congr (.refl _) (by simp)
  | cons fileId rest ih =>
      have noTask : NotPending [] fileId := by simp [NotPending]
      refine (ih (invariant.erase noTask)).congr (.refl _) ?_
      intro other
      simp only [List.mem_cons, or_assoc]

/-! ## Batches and commits -/

theorem drained_batch {fileId : FileId} (list : List (Word × UInt32))
    (noPostings : ∀ wordId, index.drained tasks wordId fileId = none) (wordId : WordId)
    (other : FileId) :
    (index.registerBatch fileId list).drained
        (tasks ++ batchTasks fileId (index.passWords fileId list).widMap) wordId other =
      if fileId = other then ((index.passWords fileId list).widMap.find? wordId).map (plusCount 0)
      else index.drained tasks wordId other := by
  have before : DictionaryChunks.addTasks wordId other
      ((index.registerBatch fileId list).dictionaryChunks.cell wordId other) tasks =
        index.drained tasks wordId other := rfl
  rw [drained, DictionaryChunks.addTasks_append, before, addTasks_batchTasks]
  by_cases same : fileId = other
  · subst same
    simp [noPostings]
  · simp [same]

/-- A batch of a busy document: its numbers and references now, its postings pending. -/
theorem batch (invariant : index.PostingsInvariant tasks busy expected bound) {fileId : FileId}
    {list : List (Word × UInt32)} (isBusy : busy fileId) (below : fileId < bound)
    (distinct : (list.map Prod.fst).Nodup) :
    (index.registerBatch fileId list).PostingsInvariant
      (tasks ++ batchTasks fileId (index.passWords fileId list).widMap)
      (fun other => busy other ∧ other ≠ fileId)
      (Function.update expected fileId (batchCounts list)) bound := by
  have spec := passSpec_passWords index fileId distinct
  have noPostings := invariant.erased fileId isBusy
  have noRefs : ∀ wordId, wordId ∉ index.refsOf fileId := by
    intro wordId listed
    rw [invariant.referenced, noPostings] at listed
    cases listed
  have drainedEq := drained_batch list noPostings
  have wordIds : (index.registerBatch fileId list).wordIds =
      (index.passWords fileId list).wordIds := rfl
  constructor
  · exact invariant.flat
  · intro other wordId
    rw [drainedEq]
    by_cases same : fileId = other
    · subst same
      have refs : (index.registerBatch fileId list).refsOf fileId =
          (index.passWords fileId list).refs := by
        simp [refsOf, registerBatch]
      rw [refs, spec.referenced, if_pos rfl, Option.isSome_map]
      constructor
      · rintro (old | ⟨word, listed, number⟩)
        · exact absurd old (noRefs wordId)
        · obtain ⟨entry, member, rfl⟩ := List.mem_map.mp listed
          obtain ⟨found, foundNumber, counted⟩ := spec.numbered entry member
          rw [number] at foundNumber
          rw [Option.some.inj foundNumber, counted]
          rfl
      · intro present
        obtain ⟨count, counted⟩ := Option.isSome_iff_exists.mp present
        obtain ⟨word, member, number⟩ := spec.counted wordId count counted
        exact .inr ⟨word, List.mem_map.mpr ⟨_, member, rfl⟩, number⟩
    · have refs : (index.registerBatch fileId list).refsOf other = index.refsOf other := by
        simp [refsOf, registerBatch, same]
      rw [refs, if_neg same]
      exact invariant.referenced other wordId
  · intro other wordId present
    rw [drainedEq] at present
    split at present
    · rename_i same
      obtain ⟨count, counted⟩ := Option.isSome_iff_exists.mp (Option.isSome_map ▸ present)
      obtain ⟨word, _, number⟩ := spec.counted wordId count counted
      exact ⟨same ▸ below, word, number⟩
    · obtain ⟨small, word, number⟩ := invariant.located other wordId present
      exact ⟨small, word, spec.kept word wordId number⟩
  · intro other stillBusy wordId
    rw [drainedEq, if_neg (Ne.symm stillBusy.2)]
    exact invariant.erased other stillBusy.1 wordId
  · intro other idle word
    rw [drainedAnswer, wordIds]
    simp only [drainedEq]
    by_cases same : other = fileId
    · subst same
      rw [Function.update_self]
      simp only [if_true]
      by_cases listed : word ∈ list.map Prod.fst
      · obtain ⟨entry, member, rfl⟩ := List.mem_map.mp listed
        obtain ⟨wordId, number, counted⟩ := spec.numbered entry member
        have stored : SortedMap.findEntry entry.1 list = some entry.2 :=
          (SortedMap.findEntry_eq_some_iff distinct).mpr member
        simp [batchCounts, number, counted, stored]
      · have unstored : SortedMap.findEntry word list = none := by
          by_contra present
          obtain ⟨count, found⟩ := Option.ne_none_iff_exists'.mp present
          exact listed (List.mem_map.mpr ⟨_, SortedMap.mem_of_findEntry_eq_some found, rfl⟩)
        rw [batchCounts, unstored, Option.map_none]
        cases number : (index.passWords other list).wordIds.tryGet word with
        | none => rfl
        | some wordId =>
            have uncounted : (index.passWords other list).widMap.find? wordId = none := by
              by_contra present
              obtain ⟨count, counted⟩ := Option.ne_none_iff_exists'.mp present
              obtain ⟨owner, member, ownerNumber⟩ := spec.counted wordId count counted
              have sameWord : owner = word := WordIdManager.tryGet_injective ownerNumber number
              exact listed (List.mem_map.mpr ⟨_, member, sameWord⟩)
            simp [uncounted]
    · rw [Function.update_of_ne same]
      simp only [if_neg (Ne.symm same)]
      rw [← invariant.stored other (fun stillBusy => idle ⟨stillBusy, same⟩) word, drainedAnswer]
      cases old : index.wordIds.tryGet word with
      | some wordId => rw [spec.kept word wordId old]
      | none =>
          cases number : (index.passWords fileId list).wordIds.tryGet word with
          | none => rfl
          | some wordId =>
              rw [Option.bind_none, Option.bind_some]
              by_contra present
              have located := (invariant.located other wordId
                (Option.isSome_iff_ne_none.mpr present)).2
              obtain ⟨owner, ownerNumber⟩ := located
              have small := WordIdManager.lt_size_of_tryGet ownerNumber
              exact absurd (spec.fresh word wordId old number) (not_le.mpr small)

/-- A commit moves its postings from the pending ones into the chunks. -/
theorem commit {groups : DictionaryChunks.ChunkMap} {rest : List PostingTask}
    (invariant : index.PostingsInvariant (groups.tasks ++ rest) busy expected bound) :
    ({ index with dictionaryChunks := index.dictionaryChunks.commitChunkMap groups } :
      InvertedIndex).PostingsInvariant rest busy expected bound := by
  have drainedEq : ({ index with
      dictionaryChunks := index.dictionaryChunks.commitChunkMap groups } : InvertedIndex).drained rest =
        index.drained (groups.tasks ++ rest) := by
    funext wordId fileId
    rw [drained, DictionaryChunks.cell_commitChunkMap, drained, DictionaryChunks.addTasks_append]
  constructor
  · exact invariant.flat
  · rw [drainedEq]
    exact invariant.referenced
  · rw [drainedEq]
    exact invariant.located
  · rw [drainedEq]
    exact invariant.erased
  · intro fileId idle word
    rw [drainedAnswer, drainedEq]
    exact invariant.stored fileId idle word

/-! ## Compaction -/

theorem keptResolve (invariant : index.PostingsInvariant [] busy expected bound) :
    index.KeptResolve index.rebuiltDictionary := by
  intro wordId kept
  obtain ⟨_, filled⟩ := mem_keptIds_rebuilt.mp kept
  rw [activePosting, invariant.flat] at filled
  obtain ⟨⟨fileId, count⟩, member⟩ := List.exists_mem_of_ne_nil _ filled
  have present : index.drained [] wordId fileId = some count := SortedMap.mem_entries_iff.mp member
  obtain ⟨_, word, number⟩ := invariant.located fileId wordId (by rw [present]; rfl)
  rw [WordIdManager.byId_of_tryGet number, Option.getD_some, number]

/-- Compaction without pending postings keeps the expected counts. -/
theorem compacted (invariant : index.PostingsInvariant [] busy expected bound) :
    (index.compacted index.rebuiltDictionary).PostingsInvariant [] busy expected bound := by
  have resolve := invariant.keptResolve
  have flat : (index.compacted index.rebuiltDictionary).dictionary = [] := rfl
  have distinct := nodup_keptIds index.rebuiltDictionary index.wordIds.size
  -- the count under a new number is the count under the old number it renames
  have drainedEq : ∀ wordId fileId,
      (index.compacted index.rebuiltDictionary).drained [] wordId fileId =
        (keptIds index.rebuiltDictionary index.wordIds.size)[wordId]?.bind fun old =>
          index.drained [] old fileId := by
    intro wordId fileId
    have active := activePosting_compacted index index.rebuiltDictionary wordId
    have stored : (index.compacted index.rebuiltDictionary).drained [] wordId fileId =
        ((index.compacted index.rebuiltDictionary).activePosting wordId).find? fileId := rfl
    rw [stored, active]
    cases found : (keptIds index.rebuiltDictionary index.wordIds.size)[wordId]? with
    | none => rfl
    | some old =>
        have kept := mem_keptIds_rebuilt.mp (List.mem_of_getElem? found)
        rw [Option.map_some, Option.getD_some, getD_rebuiltDictionary index kept.1, activePosting,
          invariant.flat]
        rfl
  have kept_of_isSome : ∀ old fileId, (index.drained [] old fileId).isSome →
      old ∈ keptIds index.rebuiltDictionary index.wordIds.size := by
    intro old fileId present
    obtain ⟨count, found⟩ := Option.isSome_iff_exists.mp present
    obtain ⟨_, word, number⟩ := invariant.located fileId old present
    refine mem_keptIds_rebuilt.mpr ⟨WordIdManager.lt_size_of_tryGet number, ?_⟩
    rw [activePosting, invariant.flat]
    exact List.ne_nil_of_mem (SortedMap.mem_entries_iff.mpr found)
  constructor
  · exact flat
  · intro fileId wordId
    rw [refsOf_compacted, drainedEq, List.mem_filterMap]
    simp only [remap_eq_some_iff distinct, invariant.referenced]
    constructor
    · rintro ⟨old, present, listed⟩
      rwa [listed]
    · intro present
      obtain ⟨count, found⟩ := Option.isSome_iff_exists.mp present
      obtain ⟨old, listed, oldFound⟩ := Option.bind_eq_some_iff.mp found
      exact ⟨old, by rw [oldFound]; rfl, listed⟩
  · intro fileId wordId present
    rw [drainedEq] at present
    obtain ⟨count, found⟩ := Option.isSome_iff_exists.mp present
    obtain ⟨old, listed, oldFound⟩ := Option.bind_eq_some_iff.mp found
    obtain ⟨small, word, number⟩ := invariant.located fileId old (by rw [oldFound]; rfl)
    exact ⟨small, word, (tryGet_compacted resolve).mpr ⟨old, listed, number⟩⟩
  · intro fileId isBusy wordId
    rw [drainedEq]
    cases (keptIds index.rebuiltDictionary index.wordIds.size)[wordId]? with
    | none => rfl
    | some old => exact invariant.erased fileId isBusy old
  · intro fileId idle word
    rw [← answer_eq_drainedAnswer flat, answer_compacted resolve,
      answer_eq_drainedAnswer invariant.flat]
    exact invariant.stored fileId idle word

/-- `compact` without pending postings, whether or not it runs. -/
theorem compact (invariant : index.PostingsInvariant [] busy expected bound) (thresholdPercent : ℚ) :
    (index.compact thresholdPercent).PostingsInvariant [] busy expected bound := by
  unfold InvertedIndex.compact
  split
  · exact invariant.compacted
  · exact invariant

end PostingsInvariant

end InvertedIndex

end SearchEngine.Index
