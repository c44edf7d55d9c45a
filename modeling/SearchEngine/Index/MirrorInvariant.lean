import SearchEngine.Index.SystemInvariant

/-!
# The mirror beside the index

The mirror is seen through its queue: `mirrorWords` and `mirrorRecords` are the
tables as they will be once every queued operation is written. `MirrorInvariant`
says that for every document that is not in flight these tables hold the expected
counts under the first row of each word. A batch keeps it when the numbers of its
words are those of the mirror's rows; a load then answers like the index.
-/

namespace SearchEngine.Index

open SearchEngine.Lib

/-- The word rows after `INSERT OR IGNORE` of the offered words. -/
def addRows (words : WordId → Option Word) (offers : List (WordId × Word)) (wordId : WordId) :
    Option Word :=
  (words wordId).or (SortedMap.findEntry wordId offers)

theorem addRows_append (words : WordId → Option Word) (first second : List (WordId × Word)) :
    addRows words (first ++ second) = addRows (addRows words first) second := by
  funext wordId
  rw [addRows, addRows, addRows, SortedMap.findEntry_append, Option.or_assoc]

/-- What the word rows and document records of the mirror have to do with the
recorded history while some documents are busy. -/
structure MirrorInvariant (words : WordId → Option Word) (records : FileId → Database.DocRecord)
    (busy : FileId → Prop) (history : History) : Prop where
  counts : ∀ fileId, ¬ busy fileId → ∀ word, word ≠ [] → ∀ count,
    (∃ wordId, Database.IsFirstRow words word wordId ∧
      (records fileId).posting wordId = some count) ↔ history.expected fileId word = some count
  tokens : ∀ fileId, ¬ busy fileId → history.expected fileId [] = none
  resolved : ∀ fileId, ¬ busy fileId → ∀ wordId, ((records fileId).posting wordId).isSome →
    ∃ word, word ≠ [] ∧ Database.IsFirstRow words word wordId
  rows : ∀ fileId wordId, ((records fileId).posting wordId).isSome → (records fileId).row.isSome
  indexed : ∀ fileId path metadata, history.indexedAs fileId = some (path, metadata) →
    ∃ row, (records fileId).row = some row ∧ row.path = path ∧
      row.mtimeTicks = metadata.mtimeTicks ∧ row.size = metadata.size

namespace MirrorInvariant

variable {words : WordId → Option Word} {records : FileId → Database.DocRecord}
  {busy : FileId → Prop} {history : History}

/-- More documents may be busy. -/
theorem mono {larger : FileId → Prop} (invariant : MirrorInvariant words records busy history)
    (above : ∀ fileId, busy fileId → larger fileId) : MirrorInvariant words records larger history :=
  { invariant with
    counts := fun fileId idle => invariant.counts fileId fun isBusy => idle (above fileId isBusy)
    tokens := fun fileId idle => invariant.tokens fileId fun isBusy => idle (above fileId isBusy)
    resolved := fun fileId idle => invariant.resolved fileId fun isBusy => idle (above fileId isBusy) }

/-- The invariant reads the expected counts and the metadata of the history. -/
theorem of_history {other : History} (invariant : MirrorInvariant words records busy history)
    (expected : other.expected = history.expected) (indexedAs : other.indexedAs = history.indexedAs) :
    MirrorInvariant words records busy other :=
  { invariant with
    counts := expected ▸ invariant.counts
    tokens := expected ▸ invariant.tokens
    indexed := indexedAs ▸ invariant.indexed }

/-- A queued deletion mark changes no posting and no metadata. -/
theorem markDeleted (invariant : MirrorInvariant words records busy history) (marked : FileId) :
    MirrorInvariant words (mirrorRules.applyOp records (.markDeleted marked)) busy history := by
  have posting : ∀ fileId, (mirrorRules.applyOp records (.markDeleted marked) fileId).posting =
      (records fileId).posting := by
    intro fileId
    rw [applyOp_markDeleted]
    split <;> rfl
  refine { invariant with counts := ?_, resolved := ?_, rows := ?_, indexed := ?_ }
  · intro fileId
    rw [posting]
    exact invariant.counts fileId
  · intro fileId
    rw [posting]
    exact invariant.resolved fileId
  · intro fileId wordId present
    rw [posting] at present
    have stored := invariant.rows fileId wordId present
    rw [applyOp_markDeleted]
    split
    · rwa [Option.isSome_map]
    · exact stored
  · intro fileId path metadata recorded
    obtain ⟨old, found, facts⟩ := invariant.indexed fileId path metadata recorded
    rw [applyOp_markDeleted]
    split
    · exact ⟨{ old with deleted := true }, by simp [found], facts⟩
    · exact ⟨old, found, facts⟩

/-- A busy document without postings in the mirror ends without a batch. -/
theorem release {fileId : FileId} {smaller : FileId → Prop}
    (invariant : MirrorInvariant words records busy history)
    (noPostings : ∀ wordId, (records fileId).posting wordId = none)
    (idle : ∀ other, ¬ smaller other → other ≠ fileId → ¬ busy other) :
    MirrorInvariant words records smaller { history with
      expected := Function.update history.expected fileId fun _ => none } := by
  refine { invariant with counts := ?_, tokens := ?_, resolved := ?_ }
  · intro other otherIdle word token count
    by_cases same : other = fileId
    · subst same
      simp [noPostings]
    · simp only [Function.update_of_ne same]
      exact invariant.counts other (idle other otherIdle same) word token count
  · intro other otherIdle
    by_cases same : other = fileId
    · subst same
      simp
    · simp only [Function.update_of_ne same]
      exact invariant.tokens other (idle other otherIdle same)
  · intro other otherIdle wordId present
    by_cases same : other = fileId
    · subst same
      simp [noPostings] at present
    · exact invariant.resolved other (idle other otherIdle same) wordId present

/-! ## A written batch -/

/-- The number of a listed word is the first row of the word, or a free row for a
word that is new to the index. -/
def Aligned (words : WordId → Option Word) (before after : WordIdManager)
    (list : List (Word × UInt32)) : Prop :=
  ∀ entry ∈ list, ∀ wordId ∈ after.tryGet entry.1,
    (words wordId = some entry.1 ∨ before.tryGet entry.1 = none ∧ words wordId = none) ∧
      ∀ earlier < wordId, words earlier ≠ some entry.1

instance (words : WordId → Option Word) (before after : WordIdManager)
    (list : List (Word × UInt32)) : Decidable (Aligned words before after list) :=
  inferInstanceAs (Decidable (∀ entry ∈ list, ∀ wordId ∈ after.tryGet entry.1, _))

/-- A new word of the batch has no posting of an idle document in the mirror. -/
theorem posting_eq_none_of_new {index : InvertedIndex} {tasks : List PostingTask} {bound : FileId}
    {word : Word} (invariant : MirrorInvariant words records busy history)
    (postings : index.PostingsInvariant tasks busy history.expected bound)
    (new : index.wordIds.tryGet word = none) {fileId : FileId} (idle : ¬ busy fileId)
    (token : word ≠ []) {wordId : WordId} (first : Database.IsFirstRow words word wordId) :
    (records fileId).posting wordId = none := by
  by_contra present
  obtain ⟨count, found⟩ := Option.ne_none_iff_exists'.mp present
  have expected := (invariant.counts fileId idle word token count).mp ⟨wordId, first, found⟩
  rw [← postings.stored fileId idle word, InvertedIndex.drainedAnswer, new] at expected
  cases expected

/-- The records after the write of a batch. -/
theorem posting_batchWrite (records : FileId → Database.DocRecord) (batch : PostingBatch)
    (pass : InvertedIndex.BatchPass) (fileId : FileId) (wordId : WordId) :
    (mirrorRules.applyOp records (System.batchWrite batch pass) fileId).posting wordId =
      if fileId = batch.fileId then
        (pass.widMap.find? wordId).map fun count => saturateCount count.toNat
      else (records fileId).posting wordId := by
  rw [System.batchWrite, applyOp_write]
  split
  · have distinct : ((pass.widMap.entries.map fun entry =>
        (entry.1, saturateCount entry.2.toNat)).map Prod.fst).Nodup := by
      rw [List.map_map]
      exact pass.widMap.keys_nodup
    have mapped : ∀ entries : List (WordId × UInt32), SortedMap.findEntry wordId
        (entries.map fun entry => (entry.1, saturateCount entry.2.toNat)) =
          (SortedMap.findEntry wordId entries).map fun count => saturateCount count.toNat := by
      intro entries
      induction entries with
      | nil => rfl
      | cons entry rest ih =>
          rw [List.map_cons, SortedMap.findEntry_cons, SortedMap.findEntry_cons, ih]
          split <;> rfl
    dsimp only
    rw [Database.lastCount_eq_findEntry distinct, mapped, Option.or_none]
    rfl
  · rfl

section Batch

variable {index : InvertedIndex} {oldRefs : List WordId} {list : List (Word × UInt32)}
  {pass : InvertedIndex.BatchPass}
  (spec : InvertedIndex.PassSpec index.wordIds oldRefs list pass)
  (aligned : Aligned words index.wordIds pass.wordIds list)

include spec

theorem findEntry_newWords (wordId : WordId) (word : Word) :
    SortedMap.findEntry wordId pass.newWords = some word ↔ (wordId, word) ∈ pass.newWords := by
  refine ⟨SortedMap.mem_of_findEntry_eq_some, fun member => ?_⟩
  have listed := (spec.offered wordId word).mp member
  cases found : SortedMap.findEntry wordId pass.newWords with
  | none =>
      exact absurd found (SortedMap.findEntry_ne_none_of_mem member)
  | some other =>
      have otherListed := (spec.offered wordId other).mp (SortedMap.mem_of_findEntry_eq_some found)
      rw [WordIdManager.tryGet_injective otherListed.2.2 listed.2.2]

/-- Only a listed word that is new to the index gains a row. -/
theorem addRows_newWords_iff {word : Word} (known : word ∉ list.map Prod.fst ∨
    index.wordIds.tryGet word ≠ none) (wordId : WordId) :
    addRows words pass.newWords wordId = some word ↔ words wordId = some word := by
  rw [addRows]
  cases stored : words wordId with
  | some other => rfl
  | none =>
      rw [Option.none_or, findEntry_newWords spec, spec.offered]
      constructor
      · rintro ⟨listed, new, _⟩
        exact absurd new (known.resolve_left (not_not.mpr listed))
      · intro impossible
        cases impossible

theorem isFirstRow_addRows_iff {word : Word} (known : word ∉ list.map Prod.fst ∨
    index.wordIds.tryGet word ≠ none) (wordId : WordId) :
    Database.IsFirstRow (addRows words pass.newWords) word wordId ↔
      Database.IsFirstRow words word wordId := by
  simp only [Database.IsFirstRow, ne_eq, addRows_newWords_iff spec known]

include aligned

/-- After the write the number of a listed word is its first row. -/
theorem isFirstRow_of_listed {entry : Word × UInt32} (member : entry ∈ list) {wordId : WordId}
    (number : pass.wordIds.tryGet entry.1 = some wordId) :
    Database.IsFirstRow (addRows words pass.newWords) entry.1 wordId := by
  obtain ⟨row, noEarlier⟩ := aligned entry member wordId number
  have listed : entry.1 ∈ list.map Prod.fst := List.mem_map.mpr ⟨entry, member, rfl⟩
  constructor
  · rcases row with stored | ⟨new, free⟩
    · rw [addRows, stored, Option.some_or]
    · rw [addRows, free, Option.none_or, findEntry_newWords spec, spec.offered]
      exact ⟨listed, new, number⟩
  · intro earlier less stored
    rw [addRows] at stored
    cases old : words earlier with
    | some other =>
        rw [old, Option.some_or] at stored
        exact noEarlier earlier less (old.trans stored)
    | none =>
        rw [old, Option.none_or, findEntry_newWords spec, spec.offered] at stored
        have same := Option.some.inj (stored.2.2.symm.trans number)
        exact absurd less (same ▸ lt_irrefl _)

variable {tasks : List PostingTask} {bound : FileId}

/-- The write of an aligned batch whose counts fit keeps the invariant; its document
is no longer busy. -/
theorem write {batch : PostingBatch} {smaller : FileId → Prop}
    (invariant : MirrorInvariant words records busy history)
    (postings : index.PostingsInvariant tasks busy history.expected bound)
    (distinct : (list.map Prod.fst).Nodup) (tokens : ∀ entry ∈ list, entry.1 ≠ [])
    (fits : ∀ entry ∈ list, CountFits entry.2.toNat)
    (idle : ∀ other, ¬ smaller other → other ≠ batch.fileId → ¬ busy other) :
    MirrorInvariant (addRows words pass.newWords)
      (mirrorRules.applyOp records (System.batchWrite batch pass)) smaller { history with
        expected := Function.update history.expected batch.fileId (InvertedIndex.batchCounts list)
        indexedAs := Function.update history.indexedAs batch.fileId
          (some (batch.path, batch.metadata)) } := by
  have narrowed : ∀ entry ∈ list, plusCount 0 entry.2 = saturateCount entry.2.toNat := by
    intro entry member
    have fit := fits entry member
    rwa [CountFits, wrapCount, clampCount_toNat] at fit
  -- a word of the batch that is new to the index is invisible for every other idle document
  have unseen : ∀ other, ¬ busy other → ∀ word, word ≠ [] → word ∈ list.map Prod.fst →
      index.wordIds.tryGet word = none → ∀ wordId, Database.IsFirstRow words word wordId →
        (records other).posting wordId = none :=
    fun other otherIdle word token _ new wordId first =>
      posting_eq_none_of_new invariant postings new otherIdle token first
  constructor
  case counts =>
    intro other otherIdle word token count
    by_cases same : other = batch.fileId
    · subst same
      simp only [posting_batchWrite, if_true, Function.update_self, InvertedIndex.batchCounts,
        Option.map_eq_some_iff]
      constructor
      · rintro ⟨wordId, first, stored, found, rfl⟩
        obtain ⟨owner, member, number⟩ := spec.counted wordId stored found
        have ownerFirst := isFirstRow_of_listed spec aligned member number
        obtain rfl : owner = word := Option.some.inj (ownerFirst.1.symm.trans first.1)
        exact ⟨stored, (SortedMap.findEntry_eq_some_iff distinct).mpr member, narrowed _ member⟩
      · rintro ⟨stored, found, rfl⟩
        have member := (SortedMap.findEntry_eq_some_iff distinct).mp found
        obtain ⟨wordId, number, counted⟩ := spec.numbered (word, stored) member
        exact ⟨wordId, isFirstRow_of_listed spec aligned member number, stored, counted,
          (narrowed _ member).symm⟩
    · have quiet := idle other otherIdle same
      simp only [posting_batchWrite, if_neg same, Function.update_of_ne same]
      rw [← invariant.counts other quiet word token count]
      by_cases new : word ∈ list.map Prod.fst ∧ index.wordIds.tryGet word = none
      · constructor
        · rintro ⟨wordId, first, found⟩
          obtain ⟨entry, member, rfl⟩ := List.mem_map.mp new.1
          obtain ⟨number, known, _⟩ := spec.numbered entry member
          have sameRow := first.unique (isFirstRow_of_listed spec aligned member known)
          obtain ⟨owner, _, ownerFirst⟩ := invariant.resolved other quiet wordId (by rw [found]; rfl)
          obtain ⟨row, noEarlier⟩ := aligned entry member number known
          rw [← sameRow] at row noEarlier
          rcases row with stored | ⟨_, free⟩
          · have unposted := unseen other quiet entry.1 token new.1 new.2 wordId ⟨stored, noEarlier⟩
            rw [found] at unposted
            cases unposted
          · rw [ownerFirst.1] at free
            cases free
        · rintro ⟨wordId, first, found⟩
          rw [unseen other quiet word token new.1 new.2 wordId first] at found
          cases found
      · have known := not_and_or.mp new
        simp only [isFirstRow_addRows_iff spec known]
  case tokens =>
    intro other otherIdle
    by_cases same : other = batch.fileId
    · subst same
      have unlisted : SortedMap.findEntry [] list = none := by
        by_contra present
        obtain ⟨count, found⟩ := Option.ne_none_iff_exists'.mp present
        exact tokens _ (SortedMap.mem_of_findEntry_eq_some found) rfl
      simp [InvertedIndex.batchCounts, unlisted]
    · simp only [Function.update_of_ne same]
      exact invariant.tokens other (idle other otherIdle same)
  case resolved =>
    intro other otherIdle wordId present
    rw [posting_batchWrite] at present
    by_cases same : other = batch.fileId
    · rw [if_pos same, Option.isSome_map] at present
      obtain ⟨count, found⟩ := Option.isSome_iff_exists.mp present
      obtain ⟨word, member, number⟩ := spec.counted wordId count found
      exact ⟨word, tokens _ member, isFirstRow_of_listed spec aligned member number⟩
    · rw [if_neg same] at present
      have quiet := idle other otherIdle same
      obtain ⟨word, token, first⟩ := invariant.resolved other quiet wordId present
      refine ⟨word, token, ?_⟩
      by_cases new : word ∈ list.map Prod.fst ∧ index.wordIds.tryGet word = none
      · rw [unseen other quiet word token new.1 new.2 wordId first] at present
        cases present
      · have known := not_and_or.mp new
        exact (isFirstRow_addRows_iff spec known wordId).mpr first
  case rows =>
    intro other wordId present
    rw [posting_batchWrite] at present
    rw [System.batchWrite, applyOp_write]
    split
    · rfl
    · rename_i different
      rw [if_neg different] at present
      exact invariant.rows other wordId present
  case indexed =>
    intro other path metadata recorded
    dsimp only at recorded
    rw [System.batchWrite, applyOp_write]
    by_cases same : other = batch.fileId
    · subst same
      rw [Function.update_self, Option.some.injEq, Prod.mk.injEq] at recorded
      obtain ⟨rfl, rfl⟩ := recorded
      rw [if_pos rfl]
      exact ⟨_, rfl, rfl, rfl, rfl⟩
    · rw [if_neg same]
      rw [Function.update_of_ne same] at recorded
      exact invariant.indexed other path metadata recorded

end Batch

end MirrorInvariant

end SearchEngine.Index
