import SearchEngine.Index.PostingList
import SearchEngine.Lib.Coalescing
import Mathlib.Data.Char
import Mathlib.Data.Prod.Lex

/-!
# Tables of the SQLite mirror

The tables `words`, `docs` and `postings` with the prepared statements of the
live writer. A statement that violates the unique index on `docs(path)` returns
`none`. A database is determined by its words and by the record of every
document (`Database.ext_of_records`), which is how queued operations act on it.
-/

namespace SearchEngine.Index

open SearchEngine.Lib

/-- A document path. -/
abbrev Path := List Char

/-- A row of `docs` under its `doc_id`. -/
structure DocRow where
  path : Path
  mtimeTicks : Int
  size : Nat
  deleted : Bool
  deriving DecidableEq

/-- The primary key `(word_id, doc_id)` of `postings`. -/
abbrev PostingKey := WordId ×ₗ FileId

/-- The key of the posting of a word in a document. -/
def postingKey (wordId : WordId) (fileId : FileId) : PostingKey := toLex (wordId, fileId)

@[simp] theorem postingKey_inj {leftWord rightWord : WordId} {leftFile rightFile : FileId} :
    postingKey leftWord leftFile = postingKey rightWord rightFile ↔
      leftWord = rightWord ∧ leftFile = rightFile := by
  unfold postingKey
  rw [toLex_inj, Prod.mk.injEq]

/-- The tables of the mirror. -/
structure Database where
  words : SortedMap WordId Word
  docs : SortedMap FileId DocRow
  postings : SortedMap PostingKey UInt16
  deriving DecidableEq

namespace Database

/-- The tables after `initSchema` on a new file. -/
def empty : Database := ⟨∅, ∅, ∅⟩

/-- The count stored for a word number and a document. -/
def posting (db : Database) (wordId : WordId) (fileId : FileId) : Option UInt16 :=
  db.postings.find? (postingKey wordId fileId)

/-! ## Statements of the live writer -/

/-- `INSERT OR IGNORE INTO words`. -/
def insertWord (db : Database) (wordId : WordId) (word : Word) : Database :=
  { db with words := db.words.emplace wordId word }

/-- Another document holds the path under the unique index `idx_docs_path_unique`. -/
def pathTaken (db : Database) (fileId : FileId) (path : Path) : Bool :=
  db.docs.entries.any fun entry => decide (entry.1 ≠ fileId) && decide (entry.2.path = path)

/-- `INSERT INTO docs … ON CONFLICT(doc_id) DO UPDATE SET …, deleted=0`. -/
def upsertDoc (db : Database) (fileId : FileId) (path : Path) (mtimeTicks : Int) (size : Nat) :
    Option Database :=
  if db.pathTaken fileId path then none
  else some { db with docs := db.docs.insert fileId ⟨path, mtimeTicks, size, false⟩ }

/-- `DELETE FROM postings WHERE doc_id=?`. -/
def deletePostings (db : Database) (fileId : FileId) : Database :=
  { db with postings := db.postings.filter fun key _ => decide ((ofLex key).2 ≠ fileId) }

/-- `INSERT OR REPLACE INTO postings`. -/
def insertPosting (db : Database) (wordId : WordId) (fileId : FileId) (cnt : UInt16) : Database :=
  { db with postings := db.postings.insert (postingKey wordId fileId) cnt }

/-- `UPDATE docs SET deleted=1 WHERE doc_id=?`. -/
def markDeleted (db : Database) (fileId : FileId) : Database :=
  { db with docs := db.docs.modify fileId fun row => { row with deleted := true } }

/-- The insertion loop over `op.widCounts`. -/
def insertPostings (db : Database) (fileId : FileId) (widCounts : List (WordId × UInt16)) :
    Database :=
  widCounts.foldl (fun tables entry => tables.insertPosting entry.1 fileId entry.2) db

/-! ## Observations -/

@[simp] theorem posting_deletePostings (db : Database) (fileId : FileId) (wordId : WordId)
    (other : FileId) : (db.deletePostings fileId).posting wordId other =
      if fileId = other then none else db.posting wordId other := by
  unfold posting deletePostings
  rw [SortedMap.find?_filter]
  have second : (ofLex (postingKey wordId other)).2 = other := rfl
  by_cases same : fileId = other
  · cases db.postings.find? (postingKey wordId other) <;> simp [second, same]
  · have different : other ≠ fileId := Ne.symm same
    cases db.postings.find? (postingKey wordId other) <;> simp [second, same, different]

@[simp] theorem posting_insertPosting (db : Database) (wordId : WordId) (fileId : FileId)
    (cnt : UInt16) (otherWord : WordId) (other : FileId) :
    (db.insertPosting wordId fileId cnt).posting otherWord other =
      if wordId = otherWord ∧ fileId = other then some cnt else db.posting otherWord other := by
  simp [posting, insertPosting]

/-- The last of the listed counts of a word, over an earlier count. -/
def lastCount (wordId : WordId) (earlier : Option UInt16) (widCounts : List (WordId × UInt16)) :
    Option UInt16 :=
  widCounts.foldl (fun stored entry => if entry.1 = wordId then some entry.2 else stored) earlier

theorem posting_insertPostings (db : Database) (fileId : FileId)
    (widCounts : List (WordId × UInt16)) (wordId : WordId) (other : FileId) :
    (db.insertPostings fileId widCounts).posting wordId other =
      if fileId = other then lastCount wordId (db.posting wordId other) widCounts
      else db.posting wordId other := by
  induction widCounts generalizing db with
  | nil => simp [insertPostings, lastCount]
  | cons entry rest ih =>
      rw [insertPostings, List.foldl_cons, ← insertPostings, ih, posting_insertPosting]
      by_cases same : fileId = other <;> simp [same, lastCount]

@[simp] theorem words_insertPostings (db : Database) (fileId : FileId)
    (widCounts : List (WordId × UInt16)) :
    (db.insertPostings fileId widCounts).words = db.words := by
  induction widCounts generalizing db with
  | nil => rfl
  | cons entry rest ih => exact ih _

@[simp] theorem docs_insertPostings (db : Database) (fileId : FileId)
    (widCounts : List (WordId × UInt16)) :
    (db.insertPostings fileId widCounts).docs = db.docs := by
  induction widCounts generalizing db with
  | nil => rfl
  | cons entry rest ih => exact ih _

/-- Among counts of distinct words the listed one is stored. -/
theorem lastCount_eq_findEntry {widCounts : List (WordId × UInt16)}
    (distinct : (widCounts.map Prod.fst).Nodup) (wordId : WordId) (earlier : Option UInt16) :
    lastCount wordId earlier widCounts = (SortedMap.findEntry wordId widCounts).or earlier := by
  induction widCounts generalizing earlier with
  | nil => rfl
  | cons entry rest ih =>
      obtain ⟨fresh, restDistinct⟩ := List.nodup_cons.mp distinct
      rw [lastCount, List.foldl_cons, ← lastCount, ih restDistinct, SortedMap.findEntry_cons]
      by_cases same : entry.1 = wordId
      · have absent : SortedMap.findEntry wordId rest = none := by
          by_contra present
          obtain ⟨count, found⟩ := Option.ne_none_iff_exists'.mp present
          exact fresh (List.mem_map.mpr ⟨_, SortedMap.mem_of_findEntry_eq_some found, same.symm⟩)
        simp [same, absent]
      · simp [same]

/-- What the tables hold about one document. -/
structure DocRecord where
  row : Option DocRow
  posting : WordId → Option UInt16

/-- The record of every document. -/
def records (db : Database) (fileId : FileId) : DocRecord :=
  ⟨db.docs.find? fileId, fun wordId => db.posting wordId fileId⟩

/-- Words and document records determine the tables. -/
theorem ext_of_records {left right : Database} (words : left.words = right.words)
    (records : left.records = right.records) : left = right := by
  have docs : left.docs = right.docs := by
    ext1 fileId
    exact congrArg DocRecord.row (congrFun records fileId)
  have postings : left.postings = right.postings := by
    ext1 key
    exact congrFun (congrArg DocRecord.posting (congrFun records (ofLex key).2)) (ofLex key).1
  cases left
  cases right
  simp_all

theorem pathTaken_eq_true_iff {db : Database} {fileId : FileId} {path : Path} :
    db.pathTaken fileId path = true ↔
      ∃ other row, db.docs.find? other = some row ∧ other ≠ fileId ∧ row.path = path := by
  simp [pathTaken, SortedMap.mem_entries_iff]

/-- `docs(path)` is unique. -/
def PathsUnique (db : Database) : Prop :=
  ∀ left right leftRow rightRow, db.docs.find? left = some leftRow →
    db.docs.find? right = some rightRow → leftRow.path = rightRow.path → left = right

theorem PathsUnique.upsertDoc {db after : Database} {fileId : FileId} {path : Path}
    {mtimeTicks : Int} {size : Nat} (unique : db.PathsUnique)
    (done : db.upsertDoc fileId path mtimeTicks size = some after) : after.PathsUnique := by
  unfold Database.upsertDoc at done
  split at done
  · cases done
  · rename_i free
    obtain rfl := Option.some.inj done
    have untaken : ∀ other row, db.docs.find? other = some row → other ≠ fileId → row.path ≠ path := by
      intro other row found different taken
      exact free (pathTaken_eq_true_iff.mpr ⟨other, row, found, different, taken⟩)
    intro left right leftRow rightRow leftFound rightFound samePath
    rw [SortedMap.find?_insert] at leftFound rightFound
    by_cases leftNew : fileId = left <;> by_cases rightNew : fileId = right
    · exact leftNew.symm.trans rightNew
    · rw [if_pos leftNew] at leftFound
      rw [if_neg rightNew] at rightFound
      obtain rfl := Option.some.inj leftFound
      exact absurd samePath.symm (untaken right rightRow rightFound (Ne.symm rightNew))
    · rw [if_neg leftNew] at leftFound
      rw [if_pos rightNew] at rightFound
      obtain rfl := Option.some.inj rightFound
      exact absurd samePath (untaken left leftRow leftFound (Ne.symm leftNew))
    · rw [if_neg leftNew] at leftFound
      rw [if_neg rightNew] at rightFound
      exact unique left right leftRow rightRow leftFound rightFound samePath

theorem PathsUnique.markDeleted {db : Database} (unique : db.PathsUnique) (fileId : FileId) :
    (db.markDeleted fileId).PathsUnique := by
  have pathKept : ∀ other row, (db.markDeleted fileId).docs.find? other = some row →
      ∃ old, db.docs.find? other = some old ∧ old.path = row.path := by
    intro other row found
    simp only [Database.markDeleted, SortedMap.find?_modify] at found
    split at found
    · obtain ⟨old, oldFound, rfl⟩ := Option.map_eq_some_iff.mp found
      exact ⟨old, oldFound, rfl⟩
    · exact ⟨row, found, rfl⟩
  intro left right leftRow rightRow leftFound rightFound samePath
  obtain ⟨oldLeft, oldLeftFound, leftPath⟩ := pathKept left leftRow leftFound
  obtain ⟨oldRight, oldRightFound, rightPath⟩ := pathKept right rightRow rightFound
  exact unique left right oldLeft oldRight oldLeftFound oldRightFound
    (leftPath.trans (samePath.trans rightPath.symm))

end Database

end SearchEngine.Index
