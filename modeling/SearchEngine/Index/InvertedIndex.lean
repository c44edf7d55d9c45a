import SearchEngine.Index.DictionaryChunks

/-!
# The in-memory index

`InvertedIndex` holds the word numbers, the chunked postings, the flat
dictionary that replaces the chunks after a batch build, and the word references
of every document. The operations are those the strand runs: a batch of one
document, the erasure of a document, and compaction with renumbered words.
-/

namespace SearchEngine.Index

open SearchEngine.Lib

/-- The state guarded by the strand and `mapMutex`. -/
structure InvertedIndex where
  wordIds : WordIdManager
  dictionaryChunks : DictionaryChunks
  dictionary : List PostingList
  wordRefs : SortedMap FileId (List WordId)

namespace InvertedIndex

/-- An index without words and documents. -/
def empty : InvertedIndex := ⟨default, [], [], ∅⟩

/-- The posting list of a word number in the active representation. -/
def activePosting (index : InvertedIndex) (wordId : WordId) : PostingList :=
  if index.dictionary.isEmpty then index.dictionaryChunks.postingList wordId
  else index.dictionary.getD wordId ∅

/-- `getPostingCopyByWord`. -/
def getPostingCopyByWord (index : InvertedIndex) (word : Word) : Option PostingList :=
  match index.wordIds.tryGet word with
  | none => none
  | some wordId =>
      if (index.activePosting wordId).entries.isEmpty then none else some (index.activePosting wordId)

/-- The count a query for a word finds for a document. -/
def answer (index : InvertedIndex) (word : Word) (fileId : FileId) : Option UInt16 :=
  (index.getPostingCopyByWord word).bind fun posting => posting.find? fileId

/-- `wordRefs[fileId]`, empty when the document has no entry. -/
def refsOf (index : InvertedIndex) (fileId : FileId) : List WordId :=
  (index.wordRefs.find? fileId).getD []

theorem find?_eq_none_of_isEmpty {posting : PostingList} (noEntries : posting.entries.isEmpty)
    (fileId : FileId) : posting.find? fileId = none := by
  rw [SortedMap.find?, List.isEmpty_iff.mp noEntries]
  rfl

theorem answer_eq (index : InvertedIndex) (word : Word) (fileId : FileId) :
    index.answer word fileId =
      (index.wordIds.tryGet word).bind fun wordId => (index.activePosting wordId).find? fileId := by
  unfold answer getPostingCopyByWord
  cases index.wordIds.tryGet word with
  | none => rfl
  | some wordId =>
      simp only [Option.bind_some]
      split
      · rename_i noEntries
        exact (find?_eq_none_of_isEmpty noEntries fileId).symm
      · rfl

/-- Queries answer alike when they find the same counts. -/
theorem getPostingCopyByWord_eq_of_answer {left right : InvertedIndex} {word : Word}
    (agree : ∀ fileId, left.answer word fileId = right.answer word fileId) :
    left.getPostingCopyByWord word = right.getPostingCopyByWord word := by
  have nonempty : ∀ (index : InvertedIndex) posting, index.getPostingCopyByWord word = some posting →
      ∃ fileId count, posting.find? fileId = some count := by
    intro index posting found
    unfold getPostingCopyByWord at found
    cases number : index.wordIds.tryGet word with
    | none => simp [number] at found
    | some wordId =>
        simp only [number] at found
        split at found
        · cases found
        · rename_i filled
          obtain rfl := Option.some.inj found
          cases entries : (index.activePosting wordId).entries with
          | nil => simp [entries] at filled
          | cons entry rest =>
              exact ⟨entry.1, entry.2, SortedMap.mem_entries_iff.mp (by simp [entries])⟩
  unfold answer at agree
  cases leftFound : left.getPostingCopyByWord word with
  | none =>
      cases rightFound : right.getPostingCopyByWord word with
      | none => rfl
      | some posting =>
          obtain ⟨fileId, count, stored⟩ := nonempty right posting rightFound
          simpa [leftFound, rightFound, stored] using agree fileId
  | some posting =>
      cases rightFound : right.getPostingCopyByWord word with
      | none =>
          obtain ⟨fileId, count, stored⟩ := nonempty left posting leftFound
          simpa [leftFound, rightFound, stored] using agree fileId
      | some other =>
          congr 1
          ext1 fileId
          simpa [leftFound, rightFound] using agree fileId

/-- `prepareLegacyMutableState`. -/
def prepareLegacyMutableState (index : InvertedIndex) : InvertedIndex :=
  if index.dictionary.isEmpty then index
  else { index with
    dictionaryChunks := DictionaryChunks.ofDictionary index.dictionary
    dictionary := [] }

/-- `safeEraseFileInternal`. -/
def safeEraseFileInternal (index : InvertedIndex) (fileId : FileId) : InvertedIndex :=
  match index.wordRefs.find? fileId with
  | some wordIds => { index with
      dictionaryChunks := index.dictionaryChunks.eraseReferenced fileId wordIds
      wordRefs := index.wordRefs.erase fileId }
  | none => { index with dictionaryChunks := index.dictionaryChunks.eraseEverywhere fileId }

/-! ## One batch -/

/-- What the word loop of `processBatch` builds. -/
structure BatchPass where
  wordIds : WordIdManager
  widMap : SortedMap WordId UInt32
  newWords : List (WordId × Word)
  refs : List WordId

/-- `if (refv.empty() || refv.back() != wid) refv.push_back(wid)`. -/
def pushRef (refs : List WordId) (wordId : WordId) : List WordId :=
  if refs.getLast? = some wordId then refs else refs ++ [wordId]

/-- One iteration of the word loop of `processBatch`. -/
def passWord (wordsBefore : Nat) (pass : BatchPass) (entry : Word × UInt32) : BatchPass where
  wordIds := (pass.wordIds.getId entry.1).2
  widMap := pass.widMap.insert (pass.wordIds.getId entry.1).1
    ((pass.widMap.find? (pass.wordIds.getId entry.1).1).getD 0 + entry.2)
  newWords :=
    if wordsBefore ≤ (pass.wordIds.getId entry.1).1 then
      pass.newWords ++ [((pass.wordIds.getId entry.1).1, entry.1)]
    else pass.newWords
  refs := pushRef pass.refs (pass.wordIds.getId entry.1).1

/-- The word loop of `processBatch`. -/
def passWords (index : InvertedIndex) (fileId : FileId) (list : List (Word × UInt32)) : BatchPass :=
  list.foldl (passWord index.wordIds.size) ⟨index.wordIds, ∅, [], index.refsOf fileId⟩

/-- The index after the word loop: numbers and references, postings still pending. -/
def registerBatch (index : InvertedIndex) (fileId : FileId) (list : List (Word × UInt32)) :
    InvertedIndex :=
  { index with
    wordIds := (index.passWords fileId list).wordIds
    wordRefs := index.wordRefs.insert fileId (index.passWords fileId list).refs }

/-- The postings of a batch, one for each word number. -/
def batchTasks (fileId : FileId) (widMap : SortedMap WordId UInt32) : List PostingTask :=
  widMap.entries.map fun entry => ⟨fileId, entry.1, entry.2⟩

/-- The state of the word loop after the words `handled`, which are distinct. -/
structure PassSpec (before : WordIdManager) (oldRefs : List WordId) (handled : List (Word × UInt32))
    (pass : BatchPass) : Prop where
  numbered : ∀ entry ∈ handled, ∃ wordId, pass.wordIds.tryGet entry.1 = some wordId ∧
    pass.widMap.find? wordId = some entry.2
  counted : ∀ wordId count, pass.widMap.find? wordId = some count →
    ∃ word, (word, count) ∈ handled ∧ pass.wordIds.tryGet word = some wordId
  unchanged : ∀ word, word ∉ handled.map Prod.fst → pass.wordIds.tryGet word = before.tryGet word
  kept : ∀ word wordId, before.tryGet word = some wordId → pass.wordIds.tryGet word = some wordId
  fresh : ∀ word wordId, before.tryGet word = none → pass.wordIds.tryGet word = some wordId →
    before.size ≤ wordId
  size_le : before.size ≤ pass.wordIds.size
  byId_old : ∀ wordId < before.size, pass.wordIds.byId wordId = before.byId wordId
  offered : ∀ wordId word, (wordId, word) ∈ pass.newWords ↔
    word ∈ handled.map Prod.fst ∧ before.tryGet word = none ∧ pass.wordIds.tryGet word = some wordId
  byId_new : ∀ wordId word, before.size ≤ wordId → pass.wordIds.byId wordId = some word →
    (wordId, word) ∈ pass.newWords
  referenced : ∀ wordId, wordId ∈ pass.refs ↔
    wordId ∈ oldRefs ∨ ∃ word ∈ handled.map Prod.fst, pass.wordIds.tryGet word = some wordId

theorem mem_pushRef {refs : List WordId} {wordId other : WordId} :
    other ∈ pushRef refs wordId ↔ other ∈ refs ∨ other = wordId := by
  unfold pushRef
  split
  · rename_i last
    have listed : wordId ∈ refs := List.mem_of_getLast? last
    constructor
    · exact .inl
    · rintro (old | rfl)
      · exact old
      · exact listed
  · simp

theorem byId_getId_of_lt {ids : WordIdManager} {word : Word} {wordId : WordId}
    (bound : wordId < ids.size) : (ids.getId word).2.byId wordId = ids.byId wordId := by
  unfold WordIdManager.getId
  cases ids.tryGet word with
  | some found => rfl
  | none => exact List.getElem?_append_left bound

theorem passSpec_passWord {before : WordIdManager} {oldRefs : List WordId}
    {handled : List (Word × UInt32)} {pass : BatchPass} (spec : PassSpec before oldRefs handled pass)
    {word : Word} {count : UInt32} (new : word ∉ handled.map Prod.fst) :
    PassSpec before oldRefs (handled ++ [(word, count)]) (passWord before.size pass (word, count)) := by
  have given := WordIdManager.tryGet_getId pass.wordIds word
  have others : ∀ other, other ≠ word →
      (passWord before.size pass (word, count)).wordIds.tryGet other = pass.wordIds.tryGet other :=
    fun other different => WordIdManager.tryGet_getId_of_ne (Ne.symm different)
  have beforeWord : pass.wordIds.tryGet word = before.tryGet word := spec.unchanged word new
  generalize idEq : (pass.wordIds.getId word).1 = wordId at given
  have uncounted : pass.widMap.find? wordId = none := by
    by_contra present
    obtain ⟨stored, found⟩ := Option.ne_none_iff_exists'.mp present
    obtain ⟨other, member, otherId⟩ := spec.counted wordId stored found
    have different : other ≠ word := fun same => new (same ▸ List.mem_map_of_mem member)
    have otherGiven := (WordIdManager.tryGet_getId_of_ne (Ne.symm different)).trans otherId
    exact different (WordIdManager.tryGet_injective otherGiven given)
  have isNew : before.size ≤ wordId ↔ before.tryGet word = none := by
    constructor
    · intro large
      by_contra present
      obtain ⟨old, found⟩ := Option.ne_none_iff_exists'.mp present
      have same : wordId = old := by
        have oldGiven : (pass.wordIds.getId word).2.tryGet word = some old :=
          WordIdManager.tryGet_getId_of_some (spec.kept word old found)
        exact Option.some.inj (given.symm.trans oldGiven)
      exact absurd (WordIdManager.lt_size_of_tryGet found) (not_lt.mpr (same ▸ large))
    · intro absent
      have unregistered : pass.wordIds.tryGet word = none := beforeWord.trans absent
      have idSize : wordId = pass.wordIds.size := by
        rw [← idEq, WordIdManager.getId, unregistered]
      exact idSize ▸ spec.size_le
  have wordIds : (passWord before.size pass (word, count)).wordIds = (pass.wordIds.getId word).2 := rfl
  have widMap : (passWord before.size pass (word, count)).widMap = pass.widMap.insert wordId count := by
    simp [passWord, idEq, uncounted]
  have newWords : (passWord before.size pass (word, count)).newWords =
      if before.size ≤ wordId then pass.newWords ++ [(wordId, word)] else pass.newWords := by
    simp [passWord, idEq]
  have refs : (passWord before.size pass (word, count)).refs = pushRef pass.refs wordId := by
    simp [passWord, idEq]
  constructor
  case numbered =>
    intro entry member
    rcases List.mem_append.mp member with old | last
    · obtain ⟨number, found, stored⟩ := spec.numbered entry old
      have different : entry.1 ≠ word := fun same => new (same ▸ List.mem_map_of_mem old)
      have distinct : wordId ≠ number := by
        intro same
        have entryGiven := (others entry.1 different).trans found
        exact different (WordIdManager.tryGet_injective entryGiven (same ▸ given))
      exact ⟨number, (others entry.1 different).trans found, by simp [widMap, distinct, stored]⟩
    · obtain rfl := List.mem_singleton.mp last
      exact ⟨wordId, given, by simp [widMap]⟩
  case counted =>
    intro number stored found
    rw [widMap, SortedMap.find?_insert] at found
    split at found
    · rename_i same
      obtain rfl := Option.some.inj found
      exact ⟨word, by simp, same ▸ given⟩
    · obtain ⟨other, member, otherId⟩ := spec.counted number stored found
      have different : other ≠ word := fun same => new (same ▸ List.mem_map_of_mem member)
      exact ⟨other, List.mem_append_left _ member, (others other different).trans otherId⟩
  case unchanged =>
    intro other absent
    simp only [List.map_append, List.map_cons, List.map_nil, List.mem_append, List.mem_singleton,
      not_or] at absent
    exact (others other absent.2).trans (spec.unchanged other absent.1)
  case kept =>
    intro other number found
    exact WordIdManager.tryGet_getId_of_some (spec.kept other number found)
  case fresh =>
    intro other number absent found
    by_cases same : other = word
    · subst same
      have sameId : number = wordId := Option.some.inj (found.symm.trans given)
      exact sameId ▸ isNew.mpr absent
    · exact spec.fresh other number absent ((others other same).symm.trans found)
  case size_le => exact spec.size_le.trans (WordIdManager.size_le_size_getId _ _)
  case byId_old =>
    intro number bound
    rw [wordIds, byId_getId_of_lt (lt_of_lt_of_le bound spec.size_le)]
    exact spec.byId_old number bound
  case offered =>
    intro number other
    have oldOffers : (number, other) ∈ pass.newWords ↔ other ∈ handled.map Prod.fst ∧
        before.tryGet other = none ∧
          (passWord before.size pass (word, count)).wordIds.tryGet other = some number := by
      rw [spec.offered]
      constructor
      · rintro ⟨listed, absent, found⟩
        exact ⟨listed, absent, WordIdManager.tryGet_getId_of_some found⟩
      · rintro ⟨listed, absent, found⟩
        have different : other ≠ word := fun same => new (same ▸ listed)
        exact ⟨listed, absent, (others other different).symm.trans found⟩
    have lastOffer : (number, other) = (wordId, word) ∧ before.size ≤ wordId ↔ other = word ∧
        before.tryGet other = none ∧
          (passWord before.size pass (word, count)).wordIds.tryGet other = some number := by
      rw [Prod.mk.injEq, isNew]
      constructor
      · rintro ⟨⟨rfl, rfl⟩, absent⟩
        exact ⟨rfl, absent, given⟩
      · rintro ⟨rfl, absent, found⟩
        exact ⟨⟨Option.some.inj (found.symm.trans given), rfl⟩, absent⟩
    have members : (number, other) ∈ (passWord before.size pass (word, count)).newWords ↔
        (number, other) ∈ pass.newWords ∨ ((number, other) = (wordId, word) ∧ before.size ≤ wordId) := by
      rw [newWords]
      split <;> simp_all
    rw [members, oldOffers, lastOffer, ← or_and_right]
    simp only [List.map_append, List.map_cons, List.map_nil, List.mem_append, List.mem_singleton]
  case byId_new =>
    intro number other large listed
    rw [newWords]
    by_cases inside : number < pass.wordIds.size
    · rw [wordIds, byId_getId_of_lt inside] at listed
      have old := spec.byId_new number other large listed
      split
      · exact List.mem_append_left _ old
      · exact old
    · cases found : pass.wordIds.tryGet word with
      | some stored =>
          rw [wordIds, WordIdManager.getId, found] at listed
          exact absurd (List.getElem?_eq_some_iff.mp listed).1 inside
      | none =>
          rw [wordIds, WordIdManager.getId, found] at listed
          have wordIdEq : wordId = pass.wordIds.size := by rw [← idEq, WordIdManager.getId, found]
          have bound : number < pass.wordIds.size + 1 := by
            rw [← WordIdManager.size_register pass.wordIds word]
            exact (List.getElem?_eq_some_iff.mp listed).1
          obtain rfl : number = pass.wordIds.size := Nat.le_antisymm (Nat.lt_succ_iff.mp bound) (not_lt.mp inside)
          have otherEq : other = word := by
            simpa [WordIdManager.byId, WordIdManager.register, WordIdManager.size] using listed.symm
          rw [wordIdEq, if_pos large, otherEq]
          simp
  case referenced =>
    intro number
    rw [refs, mem_pushRef, spec.referenced]
    simp only [List.map_append, List.map_cons, List.map_nil, List.mem_append, List.mem_singleton]
    constructor
    · rintro ((old | ⟨other, listed, found⟩) | rfl)
      · exact .inl old
      · exact .inr ⟨other, .inl listed, WordIdManager.tryGet_getId_of_some found⟩
      · exact .inr ⟨word, .inr rfl, given⟩
    · rintro (old | ⟨other, listed | rfl, found⟩)
      · exact .inl (.inl old)
      · have different : other ≠ word := fun same => new (same ▸ listed)
        exact .inl (.inr ⟨other, listed, (others other different).symm.trans found⟩)
      · exact .inr (Option.some.inj (found.symm.trans given))

/-- The word loop over distinct words numbers each of them, stores its count
under its number, offers the new ones and references all of them. -/
theorem passSpec_passWords (index : InvertedIndex) (fileId : FileId) {list : List (Word × UInt32)}
    (distinct : (list.map Prod.fst).Nodup) :
    PassSpec index.wordIds (index.refsOf fileId) list (index.passWords fileId list) := by
  have folded : ∀ (rest handled : List (Word × UInt32)) (pass : BatchPass),
      ((handled ++ rest).map Prod.fst).Nodup →
      PassSpec index.wordIds (index.refsOf fileId) handled pass →
      PassSpec index.wordIds (index.refsOf fileId) (handled ++ rest)
        (rest.foldl (passWord index.wordIds.size) pass) := by
    intro rest
    induction rest with
    | nil =>
        intro handled pass _ spec
        simpa using spec
    | cons entry rest ih =>
        intro handled pass nodup spec
        have new : entry.1 ∉ handled.map Prod.fst := by
          intro member
          rw [List.map_append, List.map_cons, List.nodup_append] at nodup
          exact nodup.2.2 _ member _ List.mem_cons_self rfl
        rw [List.append_cons] at nodup ⊢
        exact ih (handled ++ [entry]) _ nodup (passSpec_passWord spec new)
  refine folded list [] _ distinct ?_
  have unlisted : ∀ wordId word, index.wordIds.size ≤ wordId →
      index.wordIds.byId wordId ≠ some word := by
    intro wordId word large listed
    exact absurd (List.getElem?_eq_some_iff.mp listed).1 (not_lt.mpr large)
  exact {
    numbered := by simp
    counted := by simp
    unchanged := fun _ _ => rfl
    kept := fun _ _ found => found
    fresh := fun word wordId absent found => by simp [absent] at found
    size_le := le_rfl
    byId_old := fun _ _ => rfl
    offered := by simp
    byId_new := fun wordId word large listed => absurd listed (unlisted wordId word large)
    referenced := by simp }

end InvertedIndex

end SearchEngine.Index
