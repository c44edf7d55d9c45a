import SearchEngine.Lib.Statements
import SearchEngine.Index.DocPathsRows
import SearchEngine.Index.MirrorLoad

/-!
# Saving the index to SQLite

`SQLiteIndexSerializer::save` replaces the three tables in one transaction. Words are
written under their numbers, documents as the catalog reports them, postings from the
flat dictionary when it is filled and from the chunks otherwise. A call that throws
leaves the tables as they were.
-/

namespace SearchEngine.Index

open SearchEngine.Lib

/-- What `INSERT INTO docs` stores of a row. -/
def DocPaths.RawRow.docRow (row : DocPaths.RawRow) : DocRow := ⟨row.path, row.mtimeTicks, row.fsize, row.deleted⟩

namespace InvertedIndex

/-- The word rows of `save`. -/
def wordRows (index : InvertedIndex) : List (WordId × Word) :=
  index.wordIds.id2word.zipIdx.map fun entry => (entry.2, entry.1)

/-- The end of the word numbers whose posting lists `save` visits: the length of the
dictionary, or what all chunks have room for. -/
def savedEnd (index : InvertedIndex) : Nat :=
  if index.dictionary.isEmpty then index.dictionaryChunks.length * chunkSize else index.dictionary.length

/-- The posting rows of `save`, in the order of the word numbers. -/
def postingRows (index : InvertedIndex) : List (WordId × FileId × UInt16) :=
  (List.range index.savedEnd).flatMap fun wordId =>
    (index.activePosting wordId).entries.map fun entry => (wordId, entry)

end InvertedIndex

namespace Database

/-! ## Statements -/

/-- `INSERT INTO words`: the number is taken. -/
def wordRowTaken (db : Database) (entry : WordId × Word) : Bool := (db.words.find? entry.1).isSome

def addWordRow (db : Database) (entry : WordId × Word) : Database :=
  { db with words := db.words.insert entry.1 entry.2 }

/-- `INSERT INTO docs`: the number or the path is taken. -/
def docRowTaken (db : Database) (row : DocPaths.RawRow) : Bool :=
  (db.docs.find? row.id).isSome || db.pathTaken row.id row.path

def addDocRow (db : Database) (row : DocPaths.RawRow) : Database :=
  { db with docs := db.docs.insert row.id row.docRow }

/-- `INSERT INTO postings`: the pair of numbers is taken. -/
def postingRowTaken (db : Database) (entry : WordId × FileId × UInt16) : Bool :=
  (db.posting entry.1 entry.2.1).isSome

def addPostingRow (db : Database) (entry : WordId × FileId × UInt16) : Database :=
  db.insertPosting entry.1 entry.2.1 entry.2.2

/-- A statement leaves tables, or is refused. -/
abbrev Statement := Database → Option Database

/-- The statements between `BEGIN IMMEDIATE` and `COMMIT`. -/
def saveStatements (index : InvertedIndex) (rows : List DocPaths.RawRow) : List Statement :=
  (fun db => some { db with postings := ∅ }) :: (fun db => some { db with words := ∅ }) ::
    (fun db => some { db with docs := ∅ }) ::
      ((index.wordRows.map fun entry (db : Database) =>
          if db.wordRowTaken entry then none else some (db.addWordRow entry)) ++
        ((rows.map fun row (db : Database) => if db.docRowTaken row then none else some (db.addDocRow row)) ++
          index.postingRows.map fun entry (db : Database) =>
            if db.postingRowTaken entry then none else some (db.addPostingRow entry)))

/-- The calls of `save` that may throw. -/
inductive SaveCall where
  | flushPending
  | openDatabase
  | initSchema
  | beginImmediate
  | statement (position : Nat)
  | commit

/-- `SQLiteIndexSerializer::save` on a drained queue; `none` is a thrown error after which
the transaction is rolled back. -/
def save (fails : SaveCall → Bool) (db : Database) (index : InvertedIndex) (rows : List DocPaths.RawRow) :
    Option Database :=
  if fails .flushPending || fails .openDatabase || fails .initSchema || !decide db.SchemaAccepted ||
      fails .beginImmediate then none
  else
    (runStatements (fun position => fails (.statement position)) 0 (saveStatements index rows) db).bind
      fun written => if fails .commit then none else some written

/-! ## What is written -/

/-- The tables after a successful `save`. -/
def savedTables (index : InvertedIndex) (rows : List DocPaths.RawRow) : Database where
  words := SortedMap.ofList index.wordRows
  docs := SortedMap.ofList (rows.map fun row => (row.id, row.docRow))
  postings := SortedMap.ofList (index.postingRows.map fun entry => (postingKey entry.1 entry.2.1, entry.2.2))

theorem foldl_addWordRow (entries : List (WordId × Word)) (db : Database) :
    entries.foldl addWordRow db =
      ⟨entries.foldl (fun words entry => words.insert entry.1 entry.2) db.words, db.docs, db.postings⟩ := by
  induction entries generalizing db with
  | nil => rfl
  | cons entry rest ih => rw [List.foldl_cons, ih]; rfl

theorem foldl_addDocRow (rows : List DocPaths.RawRow) (db : Database) :
    rows.foldl addDocRow db = ⟨db.words, (rows.map fun row => (row.id, row.docRow)).foldl
      (fun docs entry => docs.insert entry.1 entry.2) db.docs, db.postings⟩ := by
  induction rows generalizing db with
  | nil => rfl
  | cons row rest ih => rw [List.foldl_cons, ih]; rfl

theorem foldl_addPostingRow (entries : List (WordId × FileId × UInt16)) (db : Database) :
    entries.foldl addPostingRow db = ⟨db.words, db.docs,
      (entries.map fun entry => (postingKey entry.1 entry.2.1, entry.2.2)).foldl
        (fun postings entry => postings.insert entry.1 entry.2) db.postings⟩ := by
  induction entries generalizing db with
  | nil => rfl
  | cons entry rest ih => rw [List.foldl_cons, ih]; rfl

theorem wordRowTaken_addWordRow (db : Database) (entry other : WordId × Word) :
    (db.addWordRow entry).wordRowTaken other = (db.wordRowTaken other || decide (entry.1 = other.1)) := by
  unfold wordRowTaken addWordRow
  rw [SortedMap.find?_insert]
  by_cases same : entry.1 = other.1 <;> simp [same]

theorem postingRowTaken_addPostingRow (db : Database) (entry other : WordId × FileId × UInt16) :
    (db.addPostingRow entry).postingRowTaken other =
      (db.postingRowTaken other || decide (entry.1 = other.1 ∧ entry.2.1 = other.2.1)) := by
  unfold postingRowTaken addPostingRow
  rw [posting_insertPosting]
  by_cases same : entry.1 = other.1 ∧ entry.2.1 = other.2.1 <;> simp [same]

theorem docRowTaken_addDocRow (db : Database) (row other : DocPaths.RawRow) (free : db.docRowTaken row = false) :
    (db.addDocRow row).docRowTaken other =
      (db.docRowTaken other || decide (row.id = other.id ∨ row.path = other.path)) := by
  have absent : db.docs.find? row.id = none := by
    simpa using (Bool.or_eq_false_iff.mp free).1
  rw [Bool.eq_iff_iff]
  simp only [docRowTaken, addDocRow, Bool.or_eq_true, pathTaken_eq_true_iff, SortedMap.find?_insert,
    decide_eq_true_eq]
  by_cases sameId : row.id = other.id
  · simp [sameId]
  · simp only [sameId, false_or]
    constructor
    · rintro (present | ⟨id, stored, found, different, same⟩)
      · exact .inl (.inl present)
      · split at found
        · obtain rfl := Option.some.inj found
          exact .inr same
        · exact .inl (.inr ⟨id, stored, found, different, same⟩)
    · rintro ((present | ⟨id, stored, found, different, same⟩) | same)
      · exact .inl present
      · have other : row.id ≠ id := by
          rintro rfl
          rw [absent] at found
          cases found
        exact .inr ⟨id, stored, (if_neg other).trans found, different, same⟩
      · exact .inr ⟨row.id, row.docRow, if_pos rfl, sameId, same⟩

theorem nodup_wordRows (index : InvertedIndex) : (index.wordRows.map Prod.fst).Nodup := by
  rw [InvertedIndex.wordRows, List.map_map]
  exact List.zipIdx_map_snd .. ▸ List.nodup_range'

theorem nodup_postingRows (index : InvertedIndex) :
    (index.postingRows.map fun entry => (entry.1, entry.2.1)).Nodup := by
  rw [InvertedIndex.postingRows, List.map_flatMap, List.nodup_flatMap]
  constructor
  · intro wordId _
    have distinct : ((index.activePosting wordId).entries.map Prod.fst).Nodup :=
      (index.activePosting wordId).keys_nodup
    have paired := distinct.map fun left right (same : (wordId, left) = (wordId, right)) => (Prod.mk.inj same).2
    rw [List.map_map] at paired ⊢
    exact paired
  · refine List.nodup_range.imp fun {left right} different => ?_
    intro key inLeft inRight
    simp only [List.map_map, List.mem_map, Function.comp] at inLeft inRight
    obtain ⟨_, _, rfl⟩ := inLeft
    obtain ⟨_, _, same⟩ := inRight
    exact different (Prod.mk.inj same).1.symm

/-- The statements write the tables, unless two document rows share a number or a path. -/
theorem foldlM_saveStatements (index : InvertedIndex) (rows : List DocPaths.RawRow) (db : Database) :
    (saveStatements index rows).foldlM (fun current (statement : Statement) => statement current) db =
      if DocPaths.DistinctRows rows then some (savedTables index rows) else none := by
  have words : insertRows wordRowTaken addWordRow index.wordRows empty =
      some ⟨(savedTables index rows).words, ∅, ∅⟩ := by
    rw [insertRows_eq fun db row other _ => wordRowTaken_addWordRow db row other, if_pos, foldl_addWordRow]
    · rfl
    · refine ⟨fun _ _ => rfl, ?_⟩
      have distinct := nodup_wordRows index
      rw [List.nodup_iff_pairwise_ne, List.pairwise_map] at distinct
      exact distinct.imp fun different => decide_eq_false different
  have docs : insertRows docRowTaken addDocRow rows ⟨(savedTables index rows).words, ∅, ∅⟩ =
      if DocPaths.DistinctRows rows then some ⟨(savedTables index rows).words, (savedTables index rows).docs, ∅⟩
      else none := by
    rw [insertRows_eq docRowTaken_addDocRow, foldl_addDocRow]
    refine if_congr ?_ rfl rfl
    rw [DocPaths.DistinctRows, List.nodup_iff_pairwise_ne, List.nodup_iff_pairwise_ne, List.pairwise_map,
      List.pairwise_map, ← List.pairwise_and_iff]
    simp [docRowTaken, pathTaken]
  have postings : insertRows postingRowTaken addPostingRow index.postingRows
      ⟨(savedTables index rows).words, (savedTables index rows).docs, ∅⟩ = some (savedTables index rows) := by
    rw [insertRows_eq fun db row other _ => postingRowTaken_addPostingRow db row other, if_pos,
      foldl_addPostingRow]
    · rfl
    · refine ⟨fun _ _ => rfl, ?_⟩
      have distinct := nodup_postingRows index
      rw [List.nodup_iff_pairwise_ne, List.pairwise_map] at distinct
      refine distinct.imp fun {left right} different => decide_eq_false fun same => different ?_
      exact Prod.ext same.1 same.2
  have loops (tables : Database) : ((index.wordRows.map fun entry (db : Database) =>
        if db.wordRowTaken entry then none else some (db.addWordRow entry)) ++
      ((rows.map fun row (db : Database) => if db.docRowTaken row then none else some (db.addDocRow row)) ++
        index.postingRows.map fun entry (db : Database) =>
          if db.postingRowTaken entry then none else some (db.addPostingRow entry))).foldlM
        (fun current (statement : Statement) => statement current) tables =
      (insertRows wordRowTaken addWordRow index.wordRows tables).bind fun worded =>
        (insertRows docRowTaken addDocRow rows worded).bind
          (insertRows postingRowTaken addPostingRow index.postingRows) := by
    rw [List.foldlM_append, List.foldlM_map]
    refine congrArg (Option.bind _) (funext fun worded => ?_)
    rw [List.foldlM_append, List.foldlM_map]
    refine congrArg (Option.bind _) (funext fun documented => ?_)
    rw [List.foldlM_map]
    rfl
  have cleared : (saveStatements index rows).foldlM (fun current (statement : Statement) => statement current) db =
      (insertRows wordRowTaken addWordRow index.wordRows empty).bind fun worded =>
        (insertRows docRowTaken addDocRow rows worded).bind
          (insertRows postingRowTaken addPostingRow index.postingRows) := loops empty
  rw [cleared, words, Option.bind_some, docs]
  split
  · exact postings
  · rfl

variable {fails : SaveCall → Bool} {db saved : Database} {index : InvertedIndex} {rows : List DocPaths.RawRow}

/-- A `save` that returns has written exactly the tables. -/
theorem save_eq_some (done : db.save fails index rows = some saved) :
    DocPaths.DistinctRows rows ∧ saved = savedTables index rows := by
  unfold save at done
  split at done
  · cases done
  · obtain ⟨written, ran, committed⟩ := Option.bind_eq_some_iff.mp done
    split at committed
    · cases committed
    · obtain rfl := Option.some.inj committed
      have outcome := runStatements_eq_some ran
      rw [foldlM_saveStatements] at outcome
      split at outcome
      · rename_i distinct
        exact ⟨distinct, (Option.some.inj outcome).symm⟩
      · cases outcome

theorem accepted_of_save (done : db.save fails index rows = some saved) : db.SchemaAccepted := by
  unfold save at done
  split at done
  · cases done
  · rename_i passed
    by_contra foreign
    simp [foreign] at passed

/-- Without failures from outside `save` refuses only a foreign schema and document rows
that share a number or a path. -/
theorem save_of_not_fails (accepted : db.SchemaAccepted) (distinct : DocPaths.DistinctRows rows) :
    db.save (fun _ => false) index rows = some (savedTables index rows) := by
  rw [save, if_neg (by simpa using accepted), runStatements_of_not_fails fun _ => rfl, foldlM_saveStatements,
    if_pos distinct]
  rfl

/-! ## The written tables -/

theorem words_savedTables (wordId : WordId) :
    (savedTables index rows).words.find? wordId = index.wordIds.byId wordId := by
  ext word
  rw [savedTables, SortedMap.find?_ofList_eq_some_iff (nodup_wordRows index), InvertedIndex.wordRows, List.mem_map]
  constructor
  · rintro ⟨entry, member, same⟩
    obtain ⟨rfl, rfl⟩ := Prod.mk.inj same
    exact List.mem_zipIdx_iff_getElem?.mp member
  · exact fun listed => ⟨(word, wordId), List.mem_zipIdx_iff_getElem?.mpr listed, rfl⟩

theorem docs_savedTables (distinct : DocPaths.DistinctRows rows) {id : FileId} {stored : DocRow} :
    (savedTables index rows).docs.find? id = some stored ↔ ∃ row ∈ rows, row.id = id ∧ row.docRow = stored := by
  have keys : ((rows.map fun row => (row.id, row.docRow)).map Prod.fst).Nodup := by
    rw [List.map_map]
    exact distinct.1
  rw [savedTables, SortedMap.find?_ofList_eq_some_iff keys, List.mem_map]
  constructor
  · rintro ⟨row, member, same⟩
    exact ⟨row, member, (Prod.mk.inj same).1, (Prod.mk.inj same).2⟩
  · rintro ⟨row, member, rfl, rfl⟩
    exact ⟨row, member, rfl⟩

/-- No posting lies beyond the numbers that `save` visits. -/
theorem activePosting_beyond {wordId : WordId} (beyond : index.savedEnd ≤ wordId) :
    index.activePosting wordId = ∅ := by
  unfold InvertedIndex.savedEnd at beyond
  unfold InvertedIndex.activePosting
  split at beyond
  · rename_i flat
    rw [if_pos flat, DictionaryChunks.postingList, DictionaryChunks.chunkAt, List.getElem?_eq_none]
    · rfl
    · exact (Nat.le_div_iff_mul_le (by decide)).mpr beyond
  · rename_i flat
    rw [if_neg flat, List.getD_eq_getElem?_getD, List.getElem?_eq_none beyond]
    rfl

/-- The stored counts are those of the active representation. -/
theorem posting_savedTables (wordId : WordId) (fileId : FileId) :
    (savedTables index rows).posting wordId fileId = (index.activePosting wordId).find? fileId := by
  have keys : ((index.postingRows.map fun entry => (postingKey entry.1 entry.2.1, entry.2.2)).map Prod.fst).Nodup := by
    have distinct := nodup_postingRows index
    rw [List.map_map]
    rw [List.nodup_iff_pairwise_ne, List.pairwise_map] at distinct ⊢
    exact distinct.imp fun different same => different (Prod.ext (postingKey_inj.mp same).1 (postingKey_inj.mp same).2)
  ext count
  rw [posting, savedTables, SortedMap.find?_ofList_eq_some_iff keys, List.mem_map]
  simp only [InvertedIndex.postingRows, List.mem_flatMap, List.mem_range, List.mem_map]
  constructor
  · rintro ⟨_, ⟨listed, inside, entry, member, rfl⟩, same⟩
    obtain ⟨key, rfl⟩ := Prod.mk.inj same
    obtain ⟨rfl, rfl⟩ := postingKey_inj.mp key
    exact SortedMap.mem_entries_iff.mp member
  · intro found
    have inside : wordId < index.savedEnd := by
      by_contra beyond
      rw [activePosting_beyond (Nat.le_of_not_lt beyond)] at found
      cases found
    exact ⟨(wordId, fileId, count), ⟨wordId, inside, (fileId, count), SortedMap.mem_entries_iff.mpr found, rfl⟩, rfl⟩

end Database

end SearchEngine.Index
