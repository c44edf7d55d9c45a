import SearchEngine.Index.InvertedIndex
import SearchEngine.Index.MirrorDatabase

/-!
# Loading the index from SQLite

`SQLiteIndexSerializer::load` after the checks of `initSchema`. The words table
is read into a dense table, so a missing number becomes an empty string and the
first of two equal words answers lookups. Results are stated on the answer of
the loaded index for a word and a document.
-/

namespace SearchEngine.Index

open SearchEngine.Lib

namespace Database

/-- `initSchema` throws on duplicate paths and on postings without a document. -/
def SchemaAccepted (db : Database) : Prop :=
  (db.docs.entries.map fun entry => entry.2.path).Nodup ∧
    ∀ entry ∈ db.postings.entries, (db.docs.find? (ofLex entry.1).2).isSome

instance (db : Database) : Decidable db.SchemaAccepted :=
  inferInstanceAs (Decidable (_ ∧ _))

/-- `id2word.size()` after all word rows are read. -/
def wordCount (db : Database) : Nat := db.words.nextKey

/-- `id2word` with empty strings in the gaps. -/
def wordList (db : Database) : List Word :=
  (List.range db.wordCount).map fun wordId => (db.words.find? wordId).getD []

/-- The postings appended to one word. -/
def postingListOf (db : Database) (wordId : WordId) : PostingList :=
  SortedMap.ofList (db.postings.entries.filterMap fun entry =>
    if (ofLex entry.1).1 = wordId then some ((ofLex entry.1).2, entry.2) else none)

/-- `newWordRefs[did].push_back(wid)` over the rows in primary key order. -/
def loadedRefs (db : Database) : SortedMap FileId (List WordId) :=
  db.postings.entries.foldl (fun refs entry =>
    if (ofLex entry.1).1 < db.wordCount then
      refs.insert (ofLex entry.1).2
        ((refs.find? (ofLex entry.1).2).getD [] ++ [(ofLex entry.1).1])
    else refs) ∅

/-- `SQLiteIndexSerializer::load`; `none` is a thrown error. With
`precountPostings` a posting beyond the word table is refused, otherwise the
range query does not read it. -/
def load (db : Database) (precountPostings : Bool) : Option InvertedIndex :=
  if ¬ db.SchemaAccepted then none
  else if precountPostings &&
      db.postings.entries.any fun entry => decide (db.wordCount ≤ (ofLex entry.1).1) then none
  else some {
    wordIds := WordIdManager.ofList db.wordList
    dictionaryChunks := DictionaryChunks.ofDictionary
      ((List.range db.wordCount).map db.postingListOf)
    dictionary := []
    wordRefs := db.loadedRefs }

theorem find?_postingListOf (db : Database) (wordId : WordId) (fileId : FileId) :
    (db.postingListOf wordId).find? fileId = db.posting wordId fileId := by
  let rows := db.postings.entries.filterMap fun entry =>
    if (ofLex entry.1).1 = wordId then some ((ofLex entry.1).2, entry.2) else none
  have mem_rows : ∀ file count, (file, count) ∈ rows ↔ db.posting wordId file = some count := by
    intro file count
    rw [posting, ← SortedMap.mem_entries_iff, List.mem_filterMap]
    constructor
    · rintro ⟨⟨key, stored⟩, member, selected⟩
      split at selected
      · rename_i same
        have equal := Prod.mk.inj (Option.some.inj selected)
        obtain rfl := equal.2
        have keyEq : key = postingKey wordId file := by
          rw [← same, ← equal.1]
          rfl
        exact keyEq ▸ member
      · cases selected
    · intro member
      exact ⟨_, member, by simp [postingKey]⟩
  have distinct : (rows.map Prod.fst).Nodup := by
    have sorted : db.postings.entries.Pairwise fun left right => left.1 < right.1 := db.postings.sorted
    rw [List.nodup_iff_pairwise_ne, List.pairwise_map]
    refine List.Pairwise.filterMap _ ?_ sorted
    rintro ⟨left, leftCount⟩ ⟨right, rightCount⟩ less first firstSelected second secondSelected equal
    dsimp only at firstSelected secondSelected
    split at firstSelected
    · split at secondSelected
      · rename_i leftWord rightWord
        obtain rfl := Option.some.inj firstSelected
        obtain rfl := Option.some.inj secondSelected
        have same : left = right := by
          apply ofLex.injective
          exact Prod.ext (leftWord.trans rightWord.symm) equal
        exact absurd less (same ▸ lt_irrefl _)
      · cases secondSelected
    · cases firstSelected
  apply Option.ext
  intro count
  rw [postingListOf, SortedMap.find?_ofList_eq_some_iff distinct, mem_rows]

theorem mem_loadedRefs (db : Database) (fileId : FileId) (wordId : WordId) :
    wordId ∈ (db.loadedRefs.find? fileId).getD [] ↔
      wordId < db.wordCount ∧ (db.posting wordId fileId).isSome := by
  have folded : ∀ (entries : List (PostingKey × UInt16)) (start : SortedMap FileId (List WordId)),
      wordId ∈ ((entries.foldl (fun refs entry =>
        if (ofLex entry.1).1 < db.wordCount then
          refs.insert (ofLex entry.1).2
            ((refs.find? (ofLex entry.1).2).getD [] ++ [(ofLex entry.1).1])
        else refs) start).find? fileId).getD [] ↔
      wordId ∈ (start.find? fileId).getD [] ∨
        wordId < db.wordCount ∧ ∃ entry ∈ entries, entry.1 = postingKey wordId fileId := by
    intro entries
    induction entries with
    | nil => simp
    | cons entry rest ih =>
        intro start
        rw [List.foldl_cons, ih]
        have keyEq : entry.1 = postingKey wordId fileId ↔
            (ofLex entry.1).1 = wordId ∧ (ofLex entry.1).2 = fileId := by
          rw [← Prod.mk.injEq]
          exact Iff.rfl
        have step : wordId ∈ (((if (ofLex entry.1).1 < db.wordCount then
              start.insert (ofLex entry.1).2
                ((start.find? (ofLex entry.1).2).getD [] ++ [(ofLex entry.1).1])
            else start).find? fileId).getD []) ↔
            wordId ∈ (start.find? fileId).getD [] ∨
              wordId < db.wordCount ∧ entry.1 = postingKey wordId fileId := by
          rw [keyEq]
          split
          · rename_i inside
            rw [SortedMap.find?_insert]
            by_cases sameFile : (ofLex entry.1).2 = fileId
            · subst sameFile
              simp only [if_true, Option.getD_some, List.mem_append, List.mem_singleton, and_true]
              constructor
              · rintro (old | rfl)
                · exact .inl old
                · exact .inr ⟨inside, rfl⟩
              · rintro (old | ⟨_, same⟩)
                · exact .inl old
                · exact .inr same.symm
            · simp [sameFile]
          · rename_i outside
            constructor
            · exact .inl
            · rintro (old | ⟨inside, same, _⟩)
              · exact old
              · exact absurd (same ▸ inside) outside
        rw [step]
        simp only [List.mem_cons, exists_eq_or_imp, and_or_left, or_assoc]
  rw [loadedRefs, folded]
  simp only [SortedMap.find?_empty, Option.getD_none, List.not_mem_nil, false_or]
  refine and_congr_right fun _ => ?_
  rw [Option.isSome_iff_exists, posting]
  constructor
  · rintro ⟨⟨key, count⟩, member, rfl⟩
    exact ⟨count, SortedMap.mem_entries_iff.mp member⟩
  · rintro ⟨count, found⟩
    exact ⟨_, SortedMap.mem_entries_iff.mpr found, rfl⟩

/-- `wordId` is the first row that holds `word`. -/
def IsFirstRow (words : WordId → Option Word) (word : Word) (wordId : WordId) : Prop :=
  words wordId = some word ∧ ∀ earlier < wordId, words earlier ≠ some word

/-- Every posting belongs to a token, under the first row of that token. -/
def PostingsResolve (db : Database) : Prop :=
  ∀ wordId fileId, (db.posting wordId fileId).isSome →
    ∃ word, word ≠ [] ∧ IsFirstRow db.words.find? word wordId

theorem IsFirstRow.unique {words : WordId → Option Word} {word : Word} {left right : WordId}
    (leftFirst : IsFirstRow words word left) (rightFirst : IsFirstRow words word right) :
    left = right := by
  rcases lt_trichotomy left right with less | same | greater
  · exact absurd leftFirst.1 (rightFirst.2 left less)
  · exact same
  · exact absurd rightFirst.1 (leftFirst.2 right greater)

theorem getElem?_wordList {db : Database} {word : Word} (token : word ≠ []) (wordId : WordId) :
    db.wordList[wordId]? = some word ↔ db.words.find? wordId = some word := by
  unfold wordList
  rw [List.getElem?_map]
  by_cases inside : wordId < db.wordCount
  · rw [List.getElem?_range inside, Option.map_some, Option.some.injEq]
    cases found : db.words.find? wordId with
    | none => simpa using Ne.symm token
    | some stored => simp
  · rw [List.getElem?_eq_none (by simpa using inside)]
    cases found : db.words.find? wordId with
    | none => simp
    | some stored => exact absurd (SortedMap.lt_nextKey_of_find? found) inside

/-- A loaded token has the number of its first row. -/
theorem tryGet_wordList_iff {db : Database} {word : Word} (token : word ≠ []) (wordId : WordId) :
    (WordIdManager.ofList db.wordList).tryGet word = some wordId ↔
      IsFirstRow db.words.find? word wordId := by
  rw [WordIdManager.tryGet_ofList_eq_some_iff, IsFirstRow, getElem?_wordList token]
  simp only [ne_eq, getElem?_wordList token]

/-- What a loaded index stores: the postings below the end of the word table. -/
theorem find?_postingList_load {db : Database} {precountPostings : Bool} {loaded : InvertedIndex}
    (done : db.load precountPostings = some loaded) (wordId : WordId) (fileId : FileId) :
    (loaded.dictionaryChunks.postingList wordId).find? fileId =
      if wordId < db.wordCount then db.posting wordId fileId else none := by
  unfold load at done
  split at done
  · cases done
  split at done
  · cases done
  obtain rfl := Option.some.inj done
  rw [DictionaryChunks.postingList_ofDictionary, List.getD_eq_getElem?_getD, List.getElem?_map]
  split
  · rename_i inside
    simp [List.getElem?_range inside, find?_postingListOf]
  · rename_i outside
    rw [List.getElem?_eq_none (by simpa using outside)]
    rfl

theorem schemaAccepted_of_load {db : Database} {precountPostings : Bool} {loaded : InvertedIndex}
    (done : db.load precountPostings = some loaded) : db.SchemaAccepted := by
  unfold load at done
  split at done
  · cases done
  · rename_i accepted
    exact not_not.mp accepted

theorem load_fields {db : Database} {precountPostings : Bool} {loaded : InvertedIndex}
    (done : db.load precountPostings = some loaded) :
    loaded.wordIds = WordIdManager.ofList db.wordList ∧ loaded.dictionary = [] ∧
      loaded.wordRefs = db.loadedRefs := by
  unfold load at done
  split at done
  · cases done
  split at done
  · cases done
  obtain rfl := Option.some.inj done
  exact ⟨rfl, rfl, rfl⟩

/-- The answer of a loaded index is the posting under the first row of the word. -/
theorem answer_load {db : Database} {precountPostings : Bool} {loaded : InvertedIndex}
    (done : db.load precountPostings = some loaded) {word : Word} (token : word ≠ [])
    (fileId : FileId) (count : UInt16) :
    loaded.answer word fileId = some count ↔
      ∃ wordId, IsFirstRow db.words.find? word wordId ∧ db.posting wordId fileId = some count := by
  obtain ⟨wordIds, dictionary, _⟩ := load_fields done
  have active : ∀ wordId, loaded.activePosting wordId = loaded.dictionaryChunks.postingList wordId := by
    intro wordId
    simp [InvertedIndex.activePosting, dictionary]
  rw [InvertedIndex.answer_eq, wordIds, Option.bind_eq_some_iff]
  refine exists_congr fun wordId => ?_
  rw [tryGet_wordList_iff token, active, find?_postingList_load done]
  refine and_congr_right fun first => ?_
  have inside : wordId < db.wordCount := SortedMap.lt_nextKey_of_find? first.1
  rw [if_pos inside]

/-- No posting answers for the empty word when all postings belong to tokens. -/
theorem answer_load_nil {db : Database} {precountPostings : Bool} {loaded : InvertedIndex}
    (resolves : db.PostingsResolve) (done : db.load precountPostings = some loaded)
    (fileId : FileId) : loaded.answer [] fileId = none := by
  obtain ⟨wordIds, dictionary, _⟩ := load_fields done
  rw [InvertedIndex.answer_eq]
  cases number : loaded.wordIds.tryGet [] with
  | none => rfl
  | some wordId =>
      rw [Option.bind_some, InvertedIndex.activePosting, dictionary, List.isEmpty_nil, if_pos rfl,
        find?_postingList_load done]
      split
      · by_contra present
        obtain ⟨word, token, first⟩ := resolves wordId fileId (Option.isSome_iff_ne_none.mpr present)
        have row : loaded.wordIds.byId wordId = some word := by
          rw [wordIds]
          exact (getElem?_wordList token wordId).mpr first.1
        rw [WordIdManager.byId_of_tryGet number] at row
        exact token (Option.some.inj row).symm
      · rfl

/-- An accepted database whose postings have word rows loads in both modes. -/
theorem load_succeeds {db : Database} (accepted : db.SchemaAccepted) (resolves : db.PostingsResolve)
    (precountPostings : Bool) : ∃ loaded, db.load precountPostings = some loaded := by
  have covered : (db.postings.entries.any fun entry =>
      decide (db.wordCount ≤ (ofLex entry.1).1)) = false := by
    rw [List.any_eq_false]
    rintro ⟨key, count⟩ member
    have found := SortedMap.mem_entries_iff.mp member
    obtain ⟨word, _, first⟩ := resolves (ofLex key).1 (ofLex key).2
      (Option.isSome_iff_exists.mpr ⟨count, found⟩)
    have inside : (ofLex key).1 < db.wordCount := SortedMap.lt_nextKey_of_find? first.1
    simpa using inside
  rw [load, if_neg (not_not.mpr accepted), covered, Bool.and_false, if_neg (by simp)]
  exact ⟨_, rfl⟩

theorem schemaAccepted_iff (db : Database) :
    db.SchemaAccepted ↔ db.PathsUnique ∧
      ∀ wordId fileId, (db.posting wordId fileId).isSome → (db.docs.find? fileId).isSome := by
  unfold SchemaAccepted
  refine and_congr ?_ ?_
  · rw [List.nodup_iff_pairwise_ne, List.pairwise_map]
    constructor
    · intro distinct left right leftRow rightRow leftFound rightFound samePath
      by_contra different
      have leftMember := SortedMap.mem_entries_iff.mpr leftFound
      have rightMember := SortedMap.mem_entries_iff.mpr rightFound
      let differ : FileId × DocRow → FileId × DocRow → Prop := fun first second =>
        first ≠ second → first.2.path ≠ second.2.path
      have everywhere : ∀ first ∈ db.docs.entries, ∀ second ∈ db.docs.entries, differ first second := by
        intro first firstMember second secondMember
        refine List.Pairwise.forall_of_forall_of_flip ?_ ?_ ?_ firstMember secondMember
        · exact fun _ _ same => absurd rfl same
        · exact distinct.imp fun {first second} apart (_ : first ≠ second) => apart
        · exact distinct.imp fun {first second} apart (_ : second ≠ first) => Ne.symm apart
      refine everywhere _ leftMember _ rightMember ?_ samePath
      · exact fun same => different (congrArg Prod.fst same)
    · intro unique
      refine db.docs.sorted.imp_of_mem ?_
      rintro ⟨left, leftRow⟩ ⟨right, rightRow⟩ leftMember rightMember less samePath
      exact absurd (unique left right leftRow rightRow (SortedMap.mem_entries_iff.mp leftMember)
        (SortedMap.mem_entries_iff.mp rightMember) samePath) less.ne
  · constructor
    · intro every wordId fileId present
      obtain ⟨count, found⟩ := Option.isSome_iff_exists.mp present
      exact every _ (SortedMap.mem_entries_iff.mpr found)
    · rintro every ⟨key, count⟩ member
      exact every (ofLex key).1 (ofLex key).2
        (Option.isSome_iff_exists.mpr ⟨count, SortedMap.mem_entries_iff.mp member⟩)

end Database

end SearchEngine.Index
