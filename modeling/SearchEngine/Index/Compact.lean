import SearchEngine.Index.InvertedIndex
import SearchEngine.Lib.DoubleRounding

/-!
# Compaction

`compact` drops the words without postings and renumbers the others densely in
their old order. `keptIds` are the surviving numbers, `remap` sends an old number
to its new one. Compaction keeps every answer when each kept number is the one
its word is looked up under (`answer_compacted`).
-/

namespace SearchEngine.Index

open SearchEngine.Lib

namespace InvertedIndex

/-- The registered words without postings. -/
def holes (index : InvertedIndex) : Nat :=
  (List.range index.wordIds.size).countP fun wordId => (index.activePosting wordId).entries.isEmpty

/-- `hole_percent`: `holes * 100.0 / dict_size`, every operation rounded to a `double`. -/
def holePercent (holes dictSize : Nat) : ℚ :=
  if dictSize = 0 then 0 else toDouble (toDouble (toDouble holes * 100) / toDouble dictSize)

/-- `hole_percent < thresholdPercent`. -/
def belowThreshold (holes dictSize : Nat) (thresholdPercent : ℚ) : Bool :=
  decide (holePercent holes dictSize < thresholdPercent)

/-- The decision of `compact` from the counted holes. -/
def compactRuns (holes dictSize : Nat) (thresholdPercent : ℚ) : Bool :=
  decide (holes ≠ 0) && !belowThreshold holes dictSize thresholdPercent

/-- `rebuildDictionaryFromChunks` when the chunks are active. -/
def rebuiltDictionary (index : InvertedIndex) : List PostingList :=
  if index.dictionary.isEmpty then index.dictionaryChunks.toDictionary index.wordIds.size
  else index.dictionary

/-- The old numbers in `remap`, in the order of the loop over `dictionary`. -/
def keptIds (dictionary : List PostingList) (wordCount : Nat) : List WordId :=
  (List.range dictionary.length).filter fun wordId =>
    !(dictionary.getD wordId ∅).entries.isEmpty && decide (wordId < wordCount)

/-- `remap.find(wid)`. -/
def remap (kept : List WordId) (wordId : WordId) : Option WordId :=
  if wordId ∈ kept then some (kept.idxOf wordId) else none

/-- Steps 1 to 4 of `compact` on a rebuilt dictionary. -/
def compacted (index : InvertedIndex) (dictionary : List PostingList) : InvertedIndex where
  wordIds := .renumbered ((keptIds dictionary index.wordIds.size).map fun wordId =>
    (index.wordIds.byId wordId).getD [])
  dictionaryChunks := .ofDictionary ((keptIds dictionary index.wordIds.size).map fun wordId =>
    dictionary.getD wordId ∅)
  dictionary := []
  wordRefs := index.wordRefs.mapValues fun refs =>
    refs.filterMap (remap (keptIds dictionary index.wordIds.size))

/-- `InvertedIndex::compact` once it owns `updateMutex`. -/
def compact (index : InvertedIndex) (thresholdPercent : ℚ) : InvertedIndex :=
  if compactRuns index.holes index.wordIds.size thresholdPercent then
    index.compacted index.rebuiltDictionary
  else index

/-! ## Kept numbers -/

theorem getD_rebuiltDictionary (index : InvertedIndex) {wordId : WordId}
    (bound : wordId < index.wordIds.size) :
    index.rebuiltDictionary.getD wordId ∅ = index.activePosting wordId := by
  unfold rebuiltDictionary activePosting
  split
  · rw [DictionaryChunks.getD_toDictionary, if_pos bound]
  · rfl

theorem mem_keptIds {dictionary : List PostingList} {wordCount : Nat} {wordId : WordId} :
    wordId ∈ keptIds dictionary wordCount ↔
      wordId < wordCount ∧ (dictionary.getD wordId ∅).entries ≠ [] := by
  unfold keptIds
  rw [List.mem_filter, List.mem_range, Bool.and_eq_true, decide_eq_true_eq, Bool.not_eq_true',
    List.isEmpty_eq_false_iff]
  constructor
  · exact fun kept => ⟨kept.2.2, kept.2.1⟩
  · rintro ⟨bound, filled⟩
    refine ⟨?_, filled, bound⟩
    by_contra beyond
    apply filled
    rw [List.getD_eq_getElem?_getD, List.getElem?_eq_none (not_lt.mp beyond)]
    rfl

theorem nodup_keptIds (dictionary : List PostingList) (wordCount : Nat) :
    (keptIds dictionary wordCount).Nodup :=
  List.nodup_range.filter _

/-- A rebuilt dictionary keeps exactly the registered words with postings. -/
theorem mem_keptIds_rebuilt {index : InvertedIndex} {wordId : WordId} :
    wordId ∈ keptIds index.rebuiltDictionary index.wordIds.size ↔
      wordId < index.wordIds.size ∧ (index.activePosting wordId).entries ≠ [] := by
  rw [mem_keptIds]
  refine and_congr_right fun bound => ?_
  rw [getD_rebuiltDictionary index bound]

theorem remap_eq_some_iff {kept : List WordId} (distinct : kept.Nodup) {old new : WordId} :
    remap kept old = some new ↔ kept[new]? = some old := by
  unfold remap
  constructor
  · intro found
    split at found
    · rename_i listed
      rw [← Option.some.inj found]
      exact List.getElem?_idxOf listed
    · cases found
  · intro listed
    rw [if_pos (List.mem_of_getElem? listed)]
    obtain ⟨bound, atNew⟩ := List.getElem?_eq_some_iff.mp listed
    rw [← atNew, distinct.idxOf_getElem]

/-! ## The compacted index -/

variable (index : InvertedIndex) (dictionary : List PostingList)

theorem activePosting_compacted (wordId : WordId) :
    (index.compacted dictionary).activePosting wordId =
      ((keptIds dictionary index.wordIds.size)[wordId]?.map fun old => dictionary.getD old ∅).getD ∅ := by
  unfold activePosting compacted
  simp only [List.isEmpty_nil, if_true, DictionaryChunks.postingList_ofDictionary]
  rw [List.getD_eq_getElem?_getD, List.getElem?_map]

theorem byId_compacted (wordId : WordId) :
    (index.compacted dictionary).wordIds.byId wordId =
      (keptIds dictionary index.wordIds.size)[wordId]?.map fun old =>
        (index.wordIds.byId old).getD [] := by
  rw [compacted, WordIdManager.byId, WordIdManager.renumbered, List.getElem?_map]

theorem refsOf_compacted (fileId : FileId) :
    (index.compacted dictionary).refsOf fileId =
      (index.refsOf fileId).filterMap (remap (keptIds dictionary index.wordIds.size)) := by
  unfold refsOf compacted
  rw [SortedMap.find?_mapValues]
  cases index.wordRefs.find? fileId <;> rfl

/-- Each kept number is the one its word is looked up under. -/
def KeptResolve : Prop :=
  ∀ wordId ∈ keptIds dictionary index.wordIds.size,
    index.wordIds.tryGet ((index.wordIds.byId wordId).getD []) = some wordId

instance : Decidable (index.KeptResolve dictionary) := List.decidableBAll _ _

variable {index dictionary}

theorem nodup_keptWords (resolve : index.KeptResolve dictionary) :
    ((keptIds dictionary index.wordIds.size).map fun wordId =>
      (index.wordIds.byId wordId).getD []).Nodup := by
  refine (nodup_keptIds dictionary index.wordIds.size).map_on ?_
  intro left leftKept right rightKept same
  have leftFound := resolve left leftKept
  rw [same, resolve right rightKept] at leftFound
  exact (Option.some.inj leftFound).symm

/-- The renumbered table is a bijection when the kept numbers resolve. -/
theorem bijective_compacted (resolve : index.KeptResolve dictionary) :
    (index.compacted dictionary).wordIds.Bijective :=
  WordIdManager.bijective_renumbered (nodup_keptWords resolve)

/-- A word keeps a number exactly when its old number is kept. -/
theorem tryGet_compacted (resolve : index.KeptResolve dictionary) {word : Word} {new : WordId} :
    (index.compacted dictionary).wordIds.tryGet word = some new ↔
      ∃ old, (keptIds dictionary index.wordIds.size)[new]? = some old ∧
        index.wordIds.tryGet word = some old := by
  constructor
  · intro found
    have listed := WordIdManager.byId_of_tryGet found
    rw [byId_compacted] at listed
    obtain ⟨old, kept, wordEq⟩ := Option.map_eq_some_iff.mp listed
    exact ⟨old, kept, wordEq ▸ resolve old (List.mem_of_getElem? kept)⟩
  · rintro ⟨old, kept, found⟩
    apply bijective_compacted resolve
    rw [byId_compacted, kept, Option.map_some, WordIdManager.byId_of_tryGet found, Option.getD_some]

/-- Compaction keeps the answer of every word. -/
theorem answer_compacted (resolve : index.KeptResolve index.rebuiltDictionary) (word : Word)
    (fileId : FileId) :
    (index.compacted index.rebuiltDictionary).answer word fileId = index.answer word fileId := by
  rw [answer_eq, answer_eq]
  cases found : index.wordIds.tryGet word with
  | none =>
      have dropped : (index.compacted index.rebuiltDictionary).wordIds.tryGet word = none := by
        by_contra present
        obtain ⟨new, newFound⟩ := Option.ne_none_iff_exists'.mp present
        obtain ⟨old, _, oldFound⟩ := (tryGet_compacted resolve).mp newFound
        rw [found] at oldFound
        cases oldFound
      rw [dropped]
      rfl
  | some old =>
      have bound := WordIdManager.lt_size_of_tryGet found
      by_cases kept : old ∈ keptIds index.rebuiltDictionary index.wordIds.size
      · obtain ⟨new, listed⟩ := List.getElem?_of_mem kept
        have newFound := (tryGet_compacted resolve).mpr ⟨old, listed, found⟩
        rw [newFound, Option.bind_some, Option.bind_some, activePosting_compacted, listed,
          Option.map_some, Option.getD_some, getD_rebuiltDictionary index bound]
      · have dropped : (index.compacted index.rebuiltDictionary).wordIds.tryGet word = none := by
          by_contra present
          obtain ⟨new, newFound⟩ := Option.ne_none_iff_exists'.mp present
          obtain ⟨other, listed, otherFound⟩ := (tryGet_compacted resolve).mp newFound
          rw [found] at otherFound
          exact kept (Option.some.inj otherFound ▸ List.mem_of_getElem? listed)
        have hole : (index.activePosting old).entries = [] := by
          by_contra filled
          exact kept (mem_keptIds_rebuilt.mpr ⟨bound, filled⟩)
        rw [dropped, Option.bind_none, Option.bind_some, SortedMap.find?, hole]
        rfl

end InvertedIndex

end SearchEngine.Index
