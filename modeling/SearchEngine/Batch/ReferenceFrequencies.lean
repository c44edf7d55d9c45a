import SearchEngine.Batch.Document

/-!
# Indexed frequencies and the reference

Both indexing paths count the same words. They agree with the reference exactly
when no word is left in the carry; a stored number also has to fit its type.
-/

namespace SearchEngine.Batch

open SearchEngine.Lib SearchEngine.Index

/-- The numbers a document commits to a dictionary of its own. -/
def committedFrequencies (oem : OemTable) (payloadSize : Nat) (fileId : FileId)
    (content : List Byte) : SortedMap Word Nat :=
  (commitDocument (accumulate oem payloadSize fileId content) ∅).mapValues fun postings =>
    (postings.map fun posting => posting.cnt.toNat).sum

/-- The map of `fileIndexing`, the list it hands on and the maps of the batch
pipeline are those of the whole content. -/
def FrequenciesMatchReference (oem : OemTable) (content : List Byte) : Prop :=
  frequencies oem content = referenceFrequencies oem content ∧
    listedFrequencies oem content = referenceFrequencies oem content ∧
    ∀ (builder : BatchIndexBuilder) (fileId : FileId),
      (accumulate oem builder.payloadSize fileId content).frequencies =
          referenceFrequencies oem content ∧
        committedFrequencies oem builder.payloadSize fileId content =
          referenceFrequencies oem content

/-- Every number of a map is at most a bound. -/
def CountsAtMost (bound : Nat) (counts : SortedMap Word Nat) : Prop :=
  ∀ word count, counts.find? word = some count → count ≤ bound

/-! ## Lookups -/

theorem find?_referenceFrequencies (oem : OemTable) (content : List Byte) (word : Word)
    (count : Nat) :
    (referenceFrequencies oem content).find? word = some count ↔
      count = referenceCount oem content word ∧ 0 < count :=
  find?_countWords oem (referenceTokens content) word count

/-- Without a dropped word the frequencies are those of the reference. -/
theorem frequencies_eq_of_droppedWord {oem : OemTable} {content : List Byte}
    (kept : droppedWord oem content = none) :
    frequencies oem content = referenceFrequencies oem content := by
  apply SortedMap.ext_find?
  intro word
  apply Option.ext
  intro count
  rw [find?_referenceFrequencies, referenceCount_eq, kept, frequencies, find?_countWords]
  simp

/-- The dropped word is counted once less than it occurs. -/
theorem find?_frequencies_lt_of_droppedWord {oem : OemTable} {content : List Byte} {word : Word}
    (dropped : droppedWord oem content = some word) :
    ∃ count, (referenceFrequencies oem content).find? word = some count ∧
      ∀ found, (frequencies oem content).find? word = some found → found < count := by
  refine ⟨referenceCount oem content word, ?_, fun found stored => ?_⟩
  · rw [find?_referenceFrequencies]
    refine ⟨rfl, ?_⟩
    rw [referenceCount_eq, if_pos dropped]
    omega
  · obtain ⟨countEq, _⟩ := (find?_countWords oem _ word found).mp stored
    rw [referenceCount_eq, if_pos dropped]
    omega

/-- Frequencies cut off at a bound are those of the reference exactly when no
word is dropped and no number exceeds the bound. -/
theorem mapValues_min_eq_reference_iff (oem : OemTable) (content : List Byte) (bound : Nat) :
    (frequencies oem content).mapValues (min · bound) = referenceFrequencies oem content ↔
      droppedWord oem content = none ∧ CountsAtMost bound (referenceFrequencies oem content) := by
  constructor
  · intro equal
    have kept : droppedWord oem content = none := by
      cases dropped : droppedWord oem content with
      | none => rfl
      | some word =>
          obtain ⟨count, stored, below⟩ := find?_frequencies_lt_of_droppedWord dropped
          rw [← equal, SortedMap.find?_mapValues] at stored
          obtain ⟨found, lookup, cut⟩ := Option.map_eq_some_iff.mp stored
          have less := below found lookup
          omega
    refine ⟨kept, fun word count stored => ?_⟩
    have lookup := stored
    rw [← equal, SortedMap.find?_mapValues, frequencies_eq_of_droppedWord kept, stored] at lookup
    have cut : min count bound = count := Option.some.inj lookup
    omega
  · rintro ⟨kept, bounded⟩
    rw [frequencies_eq_of_droppedWord kept]
    apply SortedMap.ext_find?
    intro word
    rw [SortedMap.find?_mapValues]
    cases stored : (referenceFrequencies oem content).find? word with
    | none => rfl
    | some count => exact congrArg some (Nat.min_eq_left (bounded word count stored))

theorem frequencies_eq_reference_iff (oem : OemTable) (content : List Byte) :
    frequencies oem content = referenceFrequencies oem content ↔
      droppedWord oem content = none := by
  refine ⟨fun equal => ?_, frequencies_eq_of_droppedWord⟩
  cases dropped : droppedWord oem content with
  | none => rfl
  | some word =>
      obtain ⟨count, stored, below⟩ := find?_frequencies_lt_of_droppedWord dropped
      rw [← equal] at stored
      exact absurd (below count stored) (Nat.lt_irrefl count)

/-- The list cuts numbers off at 32 bits. -/
theorem listedFrequencies_eq (oem : OemTable) (content : List Byte) :
    listedFrequencies oem content = (frequencies oem content).mapValues (min · (2 ^ 32 - 1)) := by
  have numbers : (batchList oem content).map (fun entry => (entry.1, entry.2.toNat)) =
      ((frequencies oem content).mapValues (min · (2 ^ 32 - 1))).entries := by
    simp [batchList, SortedMap.mapValues, Function.comp_def]
  apply SortedMap.ext_find?
  intro word
  apply Option.ext
  intro count
  rw [listedFrequencies, numbers, SortedMap.find?_ofList_eq_some_iff (SortedMap.keys_nodup _),
    SortedMap.mem_entries_iff]

/-- The commit cuts numbers off at 16 bits. -/
theorem committedFrequencies_eq (oem : OemTable) {payloadSize : Nat} (fileId : FileId)
    (content : List Byte) (positive : 0 < payloadSize) :
    committedFrequencies oem payloadSize fileId content =
      (frequencies oem content).mapValues (min · 65535) := by
  apply SortedMap.ext_find?
  intro word
  rw [committedFrequencies, SortedMap.find?_mapValues, SortedMap.find?_mapValues,
    find?_commitDocument, frequencies_accumulate oem fileId content positive]
  cases (frequencies oem content).find? word with
  | none => rfl
  | some count => simp [toNat_saturateCount]

/-! ## Agreement with the reference -/

/-- For every content: `fileIndexing` counts the words of the whole content
exactly when no word is dropped, and its list when also every number fits 32
bits; the batch pipeline counts them, for every payload size, exactly when no
word is dropped, and commits them when also every number fits 16 bits. -/
theorem wordFrequencies_eq_reference_iff (oem : OemTable) (content : List Byte) :
    (frequencies oem content = referenceFrequencies oem content ↔
        droppedWord oem content = none) ∧
      (listedFrequencies oem content = referenceFrequencies oem content ↔
        droppedWord oem content = none ∧
          CountsAtMost (2 ^ 32 - 1) (referenceFrequencies oem content)) ∧
      ∀ (builder : BatchIndexBuilder) (fileId : FileId),
        ((accumulate oem builder.payloadSize fileId content).frequencies =
            referenceFrequencies oem content ↔
          droppedWord oem content = none) ∧
        (committedFrequencies oem builder.payloadSize fileId content =
            referenceFrequencies oem content ↔
          droppedWord oem content = none ∧
            CountsAtMost 65535 (referenceFrequencies oem content)) := by
  refine ⟨frequencies_eq_reference_iff oem content, ?_, fun builder fileId => ⟨?_, ?_⟩⟩
  · rw [listedFrequencies_eq]
    exact mapValues_min_eq_reference_iff oem content _
  · rw [frequencies_accumulate oem fileId content builder.payloadSize_pos]
    exact frequencies_eq_reference_iff oem content
  · rw [committedFrequencies_eq oem fileId content builder.payloadSize_pos]
    exact mapValues_min_eq_reference_iff oem content _

/-- 64 KiB of blanks with `tail` as the last four bytes. -/
def tailAtBoundary : List Byte :=
  List.replicate (readBlockSize - 4) (Byte.ofNat 32) ++ Word.ofAscii "tail"

theorem length_tailAtBoundary : tailAtBoundary.length % readBlockSize = 0 := by
  simp only [tailAtBoundary, List.length_append, List.length_replicate]
  decide

theorem tokenizeBytes_tailAtBoundary :
    tokenizeBytes [] tailAtBoundary = ([], Word.ofAscii "tail") := by
  have blanks : ∀ count, tokenizeBytes [] (List.replicate count (Byte.ofNat 32)) = ([], []) := by
    intro count
    induction count with
    | zero => rfl
    | succ count ih =>
        rw [List.replicate_succ, tokenizeBytes, ih]
        rfl
  rw [tailAtBoundary, tokenizeBytes_append, blanks]
  decide

theorem droppedWord_tailAtBoundary :
    droppedWord OemTable.plain tailAtBoundary = some (Word.ofAscii "tail") := by
  rw [droppedWord, if_pos length_tailAtBoundary, trailingToken, tokenizeBytes_tailAtBoundary]
  decide

/-- Neither path counts the word at the end of a full read. -/
theorem not_frequenciesMatchReference_tailAtBoundary :
    ¬ FrequenciesMatchReference OemTable.plain tailAtBoundary := by
  rintro ⟨matched, _⟩
  rw [frequencies_eq_reference_iff, droppedWord_tailAtBoundary] at matched
  cases matched

end SearchEngine.Batch
