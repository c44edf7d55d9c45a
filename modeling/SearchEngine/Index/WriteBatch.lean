import SearchEngine.Index.MirrorDatabase
import Mathlib.Logic.Function.Defs

/-!
# The live mirror writer

The writer thread takes the queued operations in batches. `writeBatch` coalesces
a batch to one operation a file, collects the new words of the remaining writes
and applies both in one transaction. A write that gives a document the path of
another one rolls its batch back and ends the writer. Where both commit the same
operations, the tables of documents and postings end as if every operation had its
own batch; the words table does so exactly when no first offer of a word row is
coalesced away.
-/

namespace SearchEngine.Index

open SearchEngine.Lib

/-- A `LiveMirrorOp` of kind `Write`. -/
structure FileWrite where
  fileId : FileId
  path : Path
  mtimeTicks : Int
  size : Nat
  widCounts : List (WordId × UInt16)
  newWords : List (WordId × Word)
  markDeletedAfterWrite : Bool := false
  deriving DecidableEq

/-- A queued mirror operation. -/
inductive LiveMirrorOp where
  | write (file : FileWrite)
  | markDeleted (fileId : FileId)
  deriving DecidableEq

namespace LiveMirrorOp

/-- `op.fileId`. -/
def fileId : LiveMirrorOp → FileId
  | write file => file.fileId
  | markDeleted fileId => fileId

/-- The data of a `Write`. -/
def file? : LiveMirrorOp → Option FileWrite
  | write file => some file
  | markDeleted _ => none

/-- `op.newWords`; a `MarkDeleted` carries none. -/
def newWords : LiveMirrorOp → List (WordId × Word)
  | write file => file.newWords
  | markDeleted _ => []

end LiveMirrorOp

/-! ## Coalescing -/

/-- The coalescing loop of `writeBatch` for one operation. -/
def coalesceOp (coalesced : SortedMap FileId LiveMirrorOp) (op : LiveMirrorOp) :
    SortedMap FileId LiveMirrorOp :=
  match op, coalesced.find? op.fileId with
  | .markDeleted fileId, some (.write file) =>
      coalesced.insert fileId (.write { file with markDeletedAfterWrite := true })
  | _, _ => coalesced.insert op.fileId op

/-- `coalesced` after the whole batch. -/
def coalesce (batch : List LiveMirrorOp) : SortedMap FileId LiveMirrorOp :=
  batch.foldl coalesceOp ∅

/-- The unspecified iteration order of the `unordered_map` named `coalesced`. -/
structure IterationOrder where
  arrange : List FileId → List FileId
  perm : ∀ files, (arrange files).Perm files

/-- Iteration by increasing file number. -/
def IterationOrder.increasing : IterationOrder := ⟨id, fun _ => .refl _⟩

/-- Iteration by decreasing file number. -/
def IterationOrder.decreasing : IterationOrder := ⟨List.reverse, List.reverse_perm⟩

/-- `coalesced` in iteration order. -/
def coalescedOps (order : IterationOrder) (batch : List LiveMirrorOp) : List LiveMirrorOp :=
  (order.arrange (coalesce batch).keys).filterMap (coalesce batch).find?

/-- The `allNewWords` loop: the first offer of a word number is kept. -/
def allNewWords (ops : List LiveMirrorOp) : SortedMap WordId Word :=
  (ops.flatMap LiveMirrorOp.newWords).foldl (fun words offer => words.emplace offer.1 offer.2) ∅

namespace Database

/-- The `stInsWord_` loop. -/
def insertWords (db : Database) (words : SortedMap WordId Word) : Database :=
  words.entries.foldl (fun tables entry => tables.insertWord entry.1 entry.2) db

/-- `stDelPostings_` followed by the `stInsPosting_` loop. -/
def replacePostings (db : Database) (file : FileWrite) : Database :=
  (db.deletePostings file.fileId).insertPostings file.fileId file.widCounts

/-- The `markDeletedAfterWrite` tail of a `Write`. -/
def markAfterWrite (db : Database) (file : FileWrite) : Database :=
  if file.markDeletedAfterWrite then db.markDeleted file.fileId else db

/-- One iteration of the loop over `coalesced`. -/
def writeOp (db : Database) : LiveMirrorOp → Option Database
  | .markDeleted fileId => some (db.markDeleted fileId)
  | .write file =>
      (db.upsertDoc file.fileId file.path file.mtimeTicks file.size).map fun upserted =>
        (upserted.replacePostings file).markAfterWrite file

/-- `SQLiteIndexSerializer::writeBatch`; `none` is the rolled back transaction. -/
def writeBatch (db : Database) (order : IterationOrder) (batch : List LiveMirrorOp) :
    Option Database :=
  if batch.isEmpty then some db
  else
    (coalescedOps order batch).foldlM writeOp (db.insertWords (allNewWords (coalescedOps order batch)))

/-- The batches taken by the writer, one after the other. -/
def writeBatches (db : Database) (batches : List (IterationOrder × List LiveMirrorOp)) :
    Option Database :=
  batches.foldlM (fun tables batch => tables.writeBatch batch.1 batch.2) db

/-- What `writerLoop` leaves: the first batch that is rolled back ends the thread. -/
def writerLoop (db : Database) : List (IterationOrder × List LiveMirrorOp) → Database
  | [] => db
  | batch :: rest =>
      match db.writeBatch batch.1 batch.2 with
      | some after => after.writerLoop rest
      | none => db

end Database

/-! ## Documents and postings -/

/-- How a mirror operation acts on the record of its file, and how the writer
merges two operations of one file. -/
def mirrorRules : Coalescing FileId LiveMirrorOp Database.DocRecord where
  key := LiveMirrorOp.fileId
  act record
    | .write file =>
        ⟨some ⟨file.path, file.mtimeTicks, file.size, file.markDeletedAfterWrite⟩,
          fun wordId => Database.lastCount wordId none file.widCounts⟩
    | .markDeleted _ => { record with row := record.row.map fun row => { row with deleted := true } }
  merge pending next :=
    match pending, next with
    | .write file, .markDeleted _ => .write { file with markDeletedAfterWrite := true }
    | _, _ => next
  key_merge := by
    intro pending next same
    cases pending <;> cases next <;> first | rfl | exact same
  act_merge := by
    intro record pending next same
    cases pending <;> cases next <;> simp [Function.comp_def]

theorem applyOp_markDeleted (records : FileId → Database.DocRecord) (marked fileId : FileId) :
    mirrorRules.applyOp records (.markDeleted marked) fileId =
      if fileId = marked then { records fileId with
        row := (records fileId).row.map fun row => { row with deleted := true } }
      else records fileId := by
  by_cases same : fileId = marked
  · subst same
    rw [if_pos rfl]
    exact Function.update_self fileId _ records
  · rw [if_neg same]
    exact Function.update_of_ne (f := records) same _

theorem applyOp_write (records : FileId → Database.DocRecord) (file : FileWrite) (fileId : FileId) :
    mirrorRules.applyOp records (.write file) fileId =
      if fileId = file.fileId then
        ⟨some ⟨file.path, file.mtimeTicks, file.size, file.markDeletedAfterWrite⟩,
          fun wordId => Database.lastCount wordId none file.widCounts⟩
      else records fileId := by
  by_cases same : fileId = file.fileId
  · subst same
    rw [if_pos rfl]
    exact Function.update_self file.fileId _ records
  · rw [if_neg same]
    exact Function.update_of_ne (f := records) same _

/-- A document has a row after some operations only if it had one or is written. -/
theorem isSome_row_applyAll {records : FileId → Database.DocRecord} {ops : List LiveMirrorOp}
    {fileId : FileId} (present : (mirrorRules.applyAll records ops fileId).row.isSome) :
    (records fileId).row.isSome ∨ ∃ file, LiveMirrorOp.write file ∈ ops ∧ file.fileId = fileId := by
  induction ops generalizing records with
  | nil => exact .inl present
  | cons op rest ih =>
      rcases ih present with earlier | ⟨file, member, same⟩
      · rw [Coalescing.applyOp] at earlier
        by_cases same : fileId = mirrorRules.key op
        · subst same
          rw [Function.update_self] at earlier
          cases op with
          | write file => exact .inr ⟨file, List.mem_cons_self, rfl⟩
          | markDeleted fileId => exact .inl (by simpa [mirrorRules] using earlier)
        · rw [Function.update_of_ne same] at earlier
          exact .inl earlier
      · exact .inr ⟨file, List.mem_cons_of_mem _ member, same⟩

theorem coalesceOp_eq_queueOp : coalesceOp = mirrorRules.queueOp := by
  funext coalesced op
  cases op with
  | write file => cases found : coalesced.find? file.fileId <;>
      simp [coalesceOp, Coalescing.queueOp, mirrorRules, LiveMirrorOp.fileId, found]
  | markDeleted fileId =>
      cases found : coalesced.find? fileId with
      | none => simp [coalesceOp, Coalescing.queueOp, mirrorRules, LiveMirrorOp.fileId, found]
      | some pending => cases pending <;>
          simp [coalesceOp, Coalescing.queueOp, mirrorRules, LiveMirrorOp.fileId, found]

/-- The coalescing loop merges the operations of a file by `mirrorRules`. -/
theorem coalesce_eq_merged (batch : List LiveMirrorOp) : coalesce batch = mirrorRules.merged batch := by
  rw [coalesce, coalesceOp_eq_queueOp, Coalescing.merged]

namespace Database

theorem records_markDeleted (db : Database) (fileId : FileId) :
    (db.markDeleted fileId).records = mirrorRules.applyOp db.records (.markDeleted fileId) := by
  funext other
  by_cases same : fileId = other
  · subst same
    simp [records, markDeleted, posting, Coalescing.applyOp, mirrorRules, LiveMirrorOp.fileId]
  · have keyEq : mirrorRules.key (.markDeleted fileId) = fileId := rfl
    rw [Coalescing.applyOp, keyEq, Function.update_of_ne (Ne.symm same)]
    simp [records, markDeleted, posting, same]

theorem records_replacePostings (db : Database) (file : FileWrite) (row : DocRow) :
    (({ db with docs := db.docs.insert file.fileId row } : Database).replacePostings file).records =
      Function.update db.records file.fileId
        ⟨some row, fun wordId => lastCount wordId none file.widCounts⟩ := by
  funext other
  by_cases same : file.fileId = other
  · subst same
    simp only [records, replacePostings, posting_insertPostings, docs_insertPostings,
      posting_deletePostings, if_true]
    simp [deletePostings]
  · rw [Function.update_of_ne (Ne.symm same)]
    simp only [records, replacePostings, posting_insertPostings, docs_insertPostings,
      posting_deletePostings, if_neg same]
    simp [deletePostings, posting, same]

/-- A successful operation changes the record of its file and no word. -/
theorem writeOp_spec {db after : Database} {op : LiveMirrorOp} (done : db.writeOp op = some after) :
    after.words = db.words ∧ after.records = mirrorRules.applyOp db.records op := by
  cases op with
  | markDeleted fileId =>
      obtain rfl := Option.some.inj done
      exact ⟨rfl, records_markDeleted db fileId⟩
  | write file =>
      obtain ⟨upserted, upsert, rfl⟩ := Option.map_eq_some_iff.mp done
      unfold upsertDoc at upsert
      split at upsert
      · cases upsert
      obtain rfl := Option.some.inj upsert
      constructor
      · unfold markAfterWrite
        split <;> simp [markDeleted, replacePostings, deletePostings]
      · have keyEq : mirrorRules.key (.write file) = file.fileId := rfl
        unfold markAfterWrite
        rw [Coalescing.applyOp, keyEq]
        split
        · rename_i flag
          rw [records_markDeleted, Coalescing.applyOp, records_replacePostings]
          simp [mirrorRules, LiveMirrorOp.fileId, flag]
        · rename_i flag
          rw [records_replacePostings]
          simp [mirrorRules, flag]

theorem foldlM_writeOp_spec {db after : Database} {ops : List LiveMirrorOp}
    (done : ops.foldlM writeOp db = some after) :
    after.words = db.words ∧ after.records = mirrorRules.applyAll db.records ops := by
  induction ops generalizing db with
  | nil =>
      obtain rfl := Option.some.inj done
      exact ⟨rfl, rfl⟩
  | cons op rest ih =>
      rw [List.foldlM_cons] at done
      obtain ⟨middle, first, remaining⟩ := Option.bind_eq_some_iff.mp done
      obtain ⟨words, records⟩ := writeOp_spec first
      obtain ⟨restWords, restRecords⟩ := ih remaining
      refine ⟨restWords.trans words, ?_⟩
      rw [restRecords, records]
      rfl

end Database

/-- Committed operations keep the paths unique. -/
theorem Database.PathsUnique.foldlM_writeOp {db after : Database} {ops : List LiveMirrorOp}
    (unique : db.PathsUnique) (done : ops.foldlM Database.writeOp db = some after) :
    after.PathsUnique := by
  induction ops generalizing db with
  | nil =>
      obtain rfl := Option.some.inj done
      exact unique
  | cons op rest ih =>
      rw [List.foldlM_cons] at done
      obtain ⟨middle, first, remaining⟩ := Option.bind_eq_some_iff.mp done
      refine ih ?_ remaining
      cases op with
      | markDeleted fileId =>
          obtain rfl := Option.some.inj first
          exact unique.markDeleted fileId
      | write file =>
          obtain ⟨upserted, upsert, rfl⟩ := Option.map_eq_some_iff.mp first
          have sameDocs : (upserted.replacePostings file).docs = upserted.docs := by
            rw [Database.replacePostings, Database.docs_insertPostings]
            rfl
          have replaced : (upserted.replacePostings file).PathsUnique := by
            unfold Database.PathsUnique
            rw [sameDocs]
            exact unique.upsertDoc upsert
          unfold Database.markAfterWrite
          split
          · exact replaced.markDeleted file.fileId
          · exact replaced

/-! ## Word rows -/

/-- The word first offered for a number by a list of operations. -/
def offeredWord (wordId : WordId) (ops : List LiveMirrorOp) : Option Word :=
  SortedMap.findEntry wordId (ops.flatMap LiveMirrorOp.newWords)

theorem offeredWord_append (wordId : WordId) (first second : List LiveMirrorOp) :
    offeredWord wordId (first ++ second) =
      (offeredWord wordId first).or (offeredWord wordId second) := by
  rw [offeredWord, List.flatMap_append, SortedMap.findEntry_append, offeredWord, offeredWord]

theorem find?_allNewWords (ops : List LiveMirrorOp) (wordId : WordId) :
    (allNewWords ops).find? wordId = offeredWord wordId ops := by
  rw [allNewWords, SortedMap.find?_foldl_emplace, offeredWord]
  rfl

namespace Database

theorem find?_words_insertWord (db : Database) (wordId other : WordId) (word : Word) :
    (db.insertWord wordId word).words.find? other =
      (db.words.find? other).or (if wordId = other then some word else none) := by
  rw [insertWord, SortedMap.find?_emplace]

@[simp] theorem records_insertWord (db : Database) (wordId : WordId) (word : Word) :
    (db.insertWord wordId word).records = db.records := rfl

theorem find?_words_insertWords (db : Database) (words : SortedMap WordId Word) (wordId : WordId) :
    (db.insertWords words).words.find? wordId = (db.words.find? wordId).or (words.find? wordId) := by
  unfold insertWords SortedMap.find?
  generalize words.entries = entries
  induction entries generalizing db with
  | nil => simp
  | cons entry rest ih =>
      rw [List.foldl_cons, ih, ← SortedMap.find?, find?_words_insertWord, SortedMap.findEntry_cons]
      by_cases same : entry.1 = wordId <;> simp [same, SortedMap.find?]

@[simp] theorem records_insertWords (db : Database) (words : SortedMap WordId Word) :
    (db.insertWords words).records = db.records := by
  unfold insertWords
  generalize words.entries = entries
  induction entries generalizing db with
  | nil => rfl
  | cons entry rest ih => rw [List.foldl_cons, ih, records_insertWord]

/-- A committed batch leaves the records as its operations one after the other
would, and adds the rows offered by its coalesced operations. -/
theorem writeBatch_spec {db after : Database} {order : IterationOrder} {batch : List LiveMirrorOp}
    (done : db.writeBatch order batch = some after) :
    after.records = mirrorRules.applyAll db.records batch ∧
      ∀ wordId, after.words.find? wordId =
        (db.words.find? wordId).or (offeredWord wordId (coalescedOps order batch)) := by
  unfold writeBatch at done
  split at done
  · rename_i noOps
    obtain rfl := List.isEmpty_iff.mp noOps
    obtain rfl := Option.some.inj done
    have noKeys : order.arrange (coalesce []).keys = [] := (order.perm _).eq_nil
    simp [Coalescing.applyAll, coalescedOps, noKeys, offeredWord]
  · obtain ⟨words, records⟩ := foldlM_writeOp_spec done
    constructor
    · rw [records, records_insertWords, coalescedOps, coalesce_eq_merged]
      exact mirrorRules.applyAll_merged db.records batch (order.perm _)
    · intro wordId
      rw [words, find?_words_insertWords, find?_allNewWords]

theorem PathsUnique.writeBatch {db after : Database} {order : IterationOrder}
    {batch : List LiveMirrorOp} (unique : db.PathsUnique)
    (done : db.writeBatch order batch = some after) : after.PathsUnique := by
  unfold Database.writeBatch at done
  split at done
  · obtain rfl := Option.some.inj done
    exact unique
  · refine PathsUnique.foldlM_writeOp ?_ done
    intro left right leftRow rightRow leftFound rightFound samePath
    have rows := records_insertWords db (allNewWords (coalescedOps order batch))
    have leftOld : (db.records left).row = some leftRow := rows ▸ leftFound
    have rightOld : (db.records right).row = some rightRow := rows ▸ rightFound
    exact unique left right leftRow rightRow leftOld rightOld samePath

/-- Operations applied in batches change every record as in one sequence. -/
theorem writeBatches_spec {db after : Database} {batches : List (IterationOrder × List LiveMirrorOp)}
    (done : db.writeBatches batches = some after) :
    after.records = mirrorRules.applyAll db.records (batches.flatMap Prod.snd) ∧
      ∀ wordId, after.words.find? wordId = (db.words.find? wordId).or
        (offeredWord wordId (batches.flatMap fun batch => coalescedOps batch.1 batch.2)) := by
  induction batches generalizing db with
  | nil =>
      obtain rfl := Option.some.inj done
      simp [Coalescing.applyAll, offeredWord]
  | cons batch rest ih =>
      rw [writeBatches, List.foldlM_cons] at done
      obtain ⟨middle, first, remaining⟩ := Option.bind_eq_some_iff.mp done
      obtain ⟨records, words⟩ := writeBatch_spec first
      obtain ⟨restRecords, restWords⟩ := ih remaining
      constructor
      · rw [restRecords, records, List.flatMap_cons, Coalescing.applyAll, Coalescing.applyAll,
          Coalescing.applyAll, List.foldl_append]
      · intro wordId
        rw [restWords, words, List.flatMap_cons, offeredWord_append, Option.or_assoc]

end Database

theorem coalescedOps_singleton (order : IterationOrder) (op : LiveMirrorOp) :
    coalescedOps order [op] = [op] := by
  have single : coalesce [op] = (∅ : SortedMap FileId LiveMirrorOp).insert op.fileId op := by
    cases op <;> simp [coalesce, coalesceOp]
  have keys : (coalesce [op]).keys = [op.fileId] := by rw [single]; rfl
  have arranged : order.arrange [op.fileId] = [op.fileId] := (order.perm [op.fileId]).eq_singleton
  rw [coalescedOps, keys, arranged, single]
  simp

/-! ## What survives coalescing -/

/-- The files of a batch. -/
def batchFiles (batch : List LiveMirrorOp) : List FileId :=
  (batch.foldl (fun files op => files.insert op.fileId ()) (∅ : SortedMap FileId Unit)).keys

/-- The last write of a file in a batch: the one no later write supersedes. -/
def lastWrite (fileId : FileId) : List LiveMirrorOp → Option FileWrite
  | [] => none
  | .write file :: rest =>
      (lastWrite fileId rest).or (if file.fileId = fileId then some file else none)
  | .markDeleted _ :: rest => lastWrite fileId rest

/-- The word rows offered by the writes that are last of their file in their batch. -/
def survivingOffers (batches : List (IterationOrder × List LiveMirrorOp)) : List (WordId × Word) :=
  batches.flatMap fun batch => (batch.1.arrange (batchFiles batch.2)).flatMap fun fileId =>
    (lastWrite fileId batch.2).elim [] FileWrite.newWords

/-- Each word number without a row is first offered the same word by the whole
sequence and by the writes that no later write of their batch supersedes. -/
def FirstOffersSurvive (db : Database) (batches : List (IterationOrder × List LiveMirrorOp)) : Prop :=
  ∀ wordId, db.words.find? wordId = none →
    SortedMap.findEntry wordId (survivingOffers batches) =
      offeredWord wordId (batches.flatMap Prod.snd)

/-- Only offered numbers have to be compared. -/
instance (db : Database) (batches : List (IterationOrder × List LiveMirrorOp)) :
    Decidable (FirstOffersSurvive db batches) :=
  decidable_of_iff
    (∀ offer ∈ survivingOffers batches ++
        (batches.flatMap Prod.snd).flatMap LiveMirrorOp.newWords,
      db.words.find? offer.1 = none →
        SortedMap.findEntry offer.1 (survivingOffers batches) =
          offeredWord offer.1 (batches.flatMap Prod.snd)) <| by
    constructor
    · intro listed wordId free
      by_cases offered : ∃ word, (wordId, word) ∈ survivingOffers batches ++
          (batches.flatMap Prod.snd).flatMap LiveMirrorOp.newWords
      · obtain ⟨word, member⟩ := offered
        exact listed (wordId, word) member free
      · have unlisted : ∀ pairs : List (WordId × Word), (∀ word, (wordId, word) ∉ pairs) →
            SortedMap.findEntry wordId pairs = none := by
          intro pairs absent
          by_contra present
          obtain ⟨word, found⟩ := Option.ne_none_iff_exists'.mp present
          exact absent word (SortedMap.mem_of_findEntry_eq_some found)
        rw [offeredWord, unlisted _ fun word member => offered ⟨word, List.mem_append_left _ member⟩,
          unlisted _ fun word member => offered ⟨word, List.mem_append_right _ member⟩]
    · exact fun survive offer _ => survive offer.1

theorem keys_coalesce (batch : List LiveMirrorOp) : (coalesce batch).keys = batchFiles batch := by
  have same : ∀ (coalesced : SortedMap FileId LiveMirrorOp) (files : SortedMap FileId Unit),
      coalesced.keys = files.keys →
      (batch.foldl coalesceOp coalesced).keys =
        (batch.foldl (fun known op => known.insert op.fileId ()) files).keys := by
    induction batch with
    | nil => exact fun _ _ equal => equal
    | cons op rest ih =>
        intro coalesced files equal
        refine ih _ _ (SortedMap.keys_eq_of_mem_iff ?_)
        intro key
        have inserted : key ∈ (coalesceOp coalesced op).keys ↔
            op.fileId = key ∨ key ∈ coalesced.keys := by
          unfold coalesceOp
          split <;> simp [LiveMirrorOp.fileId]
        rw [inserted, SortedMap.mem_keys_insert, equal]
  exact same ∅ ∅ rfl

/-- Coalescing keeps the last write of a file, but for the mark of a later deletion. -/
theorem view_coalesce {View : Type} (view : FileWrite → View)
    (unmarked : ∀ file flag, view { file with markDeletedAfterWrite := flag } = view file)
    (batch : List LiveMirrorOp) (fileId : FileId) :
    (((coalesce batch).find? fileId).bind LiveMirrorOp.file?).map view = (lastWrite fileId batch).map view := by
  have folded : ∀ start : SortedMap FileId LiveMirrorOp,
      (∀ key op, start.find? key = some op → op.fileId = key) →
      (((batch.foldl coalesceOp start).find? fileId).bind LiveMirrorOp.file?).map view =
        ((lastWrite fileId batch).or ((start.find? fileId).bind LiveMirrorOp.file?)).map view := by
    induction batch with
    | nil => exact fun _ _ => rfl
    | cons op rest ih =>
        intro start keyed
        have nextKeyed : ∀ key stored, (coalesceOp start op).find? key = some stored →
            stored.fileId = key := by
          rw [coalesceOp_eq_queueOp]
          exact mirrorRules.keyed_queueOp keyed op
        rw [List.foldl_cons, ih _ nextKeyed]
        cases op with
        | write file =>
            simp only [coalesceOp, lastWrite, LiveMirrorOp.fileId, SortedMap.find?_insert]
            cases lastWrite fileId rest with
            | some later => simp
            | none => by_cases same : file.fileId = fileId <;> simp [same, LiveMirrorOp.file?]
        | markDeleted marked =>
            simp only [coalesceOp, lastWrite, LiveMirrorOp.fileId]
            cases lastWrite fileId rest with
            | some later => rfl
            | none =>
                by_cases same : marked = fileId
                · subst same
                  cases pending : start.find? marked with
                  | none => simp [LiveMirrorOp.file?]
                  | some stored => cases stored <;> simp [LiveMirrorOp.file?, unmarked]
                · cases pending : start.find? marked with
                  | none => simp [same]
                  | some stored => cases stored <;> simp [same]
  have whole := folded ∅ (fun _ _ missing => by simp at missing)
  simpa [coalesce] using whole

theorem newWords_coalesce (batch : List LiveMirrorOp) (fileId : FileId) :
    ((coalesce batch).find? fileId).elim [] LiveMirrorOp.newWords =
      (lastWrite fileId batch).elim [] FileWrite.newWords := by
  have kept := view_coalesce FileWrite.newWords (fun _ _ => rfl) batch fileId
  cases found : (coalesce batch).find? fileId with
  | none =>
      rw [found] at kept
      cases last : lastWrite fileId batch with
      | none => rfl
      | some file => simp [last] at kept
  | some op =>
      rw [found] at kept
      cases op with
      | write file =>
          cases last : lastWrite fileId batch with
          | none => simp [last, LiveMirrorOp.file?] at kept
          | some other => simpa [last, LiveMirrorOp.file?, LiveMirrorOp.newWords] using kept
      | markDeleted marked =>
          cases last : lastWrite fileId batch with
          | none => rfl
          | some other => simp [last, LiveMirrorOp.file?] at kept

/-- The coalesced operations offer the word rows of the surviving writes. -/
theorem offeredWord_coalescedOps (batches : List (IterationOrder × List LiveMirrorOp))
    (wordId : WordId) :
    offeredWord wordId (batches.flatMap fun batch => coalescedOps batch.1 batch.2) =
      SortedMap.findEntry wordId (survivingOffers batches) := by
  have offers : ∀ (coalesced : SortedMap FileId LiveMirrorOp) (files : List FileId),
      (files.filterMap coalesced.find?).flatMap LiveMirrorOp.newWords =
        files.flatMap fun fileId => (coalesced.find? fileId).elim [] LiveMirrorOp.newWords := by
    intro coalesced files
    induction files with
    | nil => rfl
    | cons fileId rest ih =>
        cases found : coalesced.find? fileId with
        | none => simp [List.filterMap_cons_none found, found, ih]
        | some op => simp [List.filterMap_cons_some found, found, ih]
  unfold offeredWord survivingOffers
  rw [List.flatMap_assoc]
  congr 2
  funext batch
  rw [coalescedOps, offers, keys_coalesce]
  congr 1
  funext fileId
  exact newWords_coalesce batch.2 fileId

/-! ## Batches that are rolled back -/

/-- Another document has the path. -/
def clashes (paths : List (FileId × Path)) (new : FileId × Path) : Bool :=
  paths.any fun old => decide (old.1 ≠ new.1) && decide (old.2 = new.2)

/-- The paths of the documents after one of them got another. -/
def givePath (paths : List (FileId × Path)) (new : FileId × Path) : List (FileId × Path) :=
  new :: paths.filter fun old => decide (old.1 ≠ new.1)

/-- The documents get their paths one after the other, and none that another one has then. -/
def clashFree : List (FileId × Path) → List (FileId × Path) → Bool
  | _, [] => true
  | paths, new :: rest => !clashes paths new && clashFree (givePath paths new) rest

/-- The paths that the last writes of the files of a batch give, in the order of the writer. -/
def batchPaths (batch : IterationOrder × List LiveMirrorOp) : List (FileId × Path) :=
  (batch.1.arrange (batchFiles batch.2)).filterMap fun fileId =>
    (lastWrite fileId batch.2).map fun file => (file.fileId, file.path)

/-- The batches before the first one in which a document gets the path of another. -/
def acceptedBatches : List (FileId × Path) → List (IterationOrder × List LiveMirrorOp) →
    List (IterationOrder × List LiveMirrorOp)
  | _, [] => []
  | paths, batch :: rest =>
      if clashFree paths (batchPaths batch) then
        batch :: acceptedBatches ((batchPaths batch).foldl givePath paths) rest
      else []

/-- The paths of the rows of `docs`. -/
def Database.docPaths (db : Database) : List (FileId × Path) :=
  db.docs.entries.map fun entry => (entry.1, entry.2.path)

/-- These are the paths of the documents. -/
def Database.HasPaths (db : Database) (paths : List (FileId × Path)) : Prop :=
  ∀ fileId path, (fileId, path) ∈ paths ↔ ∃ row, db.docs.find? fileId = some row ∧ row.path = path

/-- The number and the path that a write gives. -/
def FileWrite.named (file : FileWrite) : FileId × Path := (file.fileId, file.path)

namespace Database

variable {db : Database} {paths : List (FileId × Path)}

theorem hasPaths_docPaths (db : Database) : db.HasPaths db.docPaths := by
  intro fileId path
  constructor
  · intro member
    obtain ⟨⟨other, row⟩, listed, same⟩ := List.mem_map.mp member
    obtain ⟨rfl, rfl⟩ := Prod.mk.inj same
    exact ⟨row, SortedMap.mem_entries_iff.mp listed, rfl⟩
  · rintro ⟨row, found, rfl⟩
    exact List.mem_map.mpr ⟨(fileId, row), SortedMap.mem_entries_iff.mpr found, rfl⟩

theorem HasPaths.clashes_eq (known : db.HasPaths paths) (new : FileId × Path) :
    clashes paths new = db.pathTaken new.1 new.2 := by
  rw [Bool.eq_iff_iff, pathTaken_eq_true_iff, clashes, List.any_eq_true]
  constructor
  · rintro ⟨⟨other, path⟩, member, taken⟩
    obtain ⟨row, found, rfl⟩ := (known other path).mp member
    simp only [Bool.and_eq_true, decide_eq_true_eq] at taken
    exact ⟨other, row, found, taken.1, taken.2⟩
  · rintro ⟨other, row, found, different, same⟩
    exact ⟨(other, row.path), (known other row.path).mpr ⟨row, found, rfl⟩, by simp [different, same]⟩

/-- An operation that does not clash keeps track of the paths. -/
theorem HasPaths.writeOp {after : Database} {op : LiveMirrorOp} (known : db.HasPaths paths)
    (done : db.writeOp op = some after) :
    after.HasPaths ((op.file?.map FileWrite.named).elim paths (givePath paths)) := by
  have rows (fileId : FileId) : (after.records fileId).row = after.docs.find? fileId := rfl
  intro fileId path
  rw [← rows, (writeOp_spec done).2]
  cases op with
  | markDeleted marked =>
      rw [applyOp_markDeleted]
      refine (known fileId path).trans ?_
      change (∃ row, (db.records fileId).row = some row ∧ row.path = path) ↔ _
      split
      · constructor
        · rintro ⟨row, found, same⟩
          exact ⟨{ row with deleted := true }, by rw [found]; rfl, same⟩
        · rintro ⟨row, found, same⟩
          obtain ⟨old, stored, rfl⟩ := Option.map_eq_some_iff.mp found
          exact ⟨old, stored, same⟩
      · exact Iff.rfl
  | write file =>
      rw [applyOp_write]
      simp only [LiveMirrorOp.file?, Option.map_some, Option.elim_some, givePath, FileWrite.named, List.mem_cons,
        Prod.mk.injEq, List.mem_filter, known fileId path, decide_eq_true_eq]
      by_cases same : fileId = file.fileId
      · simp [same, eq_comm]
      · simp [same, records]

theorem HasPaths.writeOp_isSome {op : LiveMirrorOp} (known : db.HasPaths paths) :
    (db.writeOp op).isSome = (op.file?.map FileWrite.named).all fun new => !clashes paths new := by
  cases op with
  | markDeleted marked => rfl
  | write file =>
      rw [Database.writeOp, Option.isSome_map, upsertDoc, LiveMirrorOp.file?, Option.map_some, Option.all_some,
        known.clashes_eq]
      change (if db.pathTaken file.fileId file.path = true then none else _).isSome = !db.pathTaken file.fileId file.path
      cases db.pathTaken file.fileId file.path <;> rfl

/-- The paths given by some operations. -/
def namedPaths (ops : List LiveMirrorOp) : List (FileId × Path) :=
  ops.filterMap fun op => op.file?.map FileWrite.named

theorem HasPaths.foldlM_writeOp {ops : List LiveMirrorOp} (known : db.HasPaths paths) :
    (ops.foldlM Database.writeOp db).isSome = clashFree paths (namedPaths ops) ∧
      ∀ after, ops.foldlM Database.writeOp db = some after → after.HasPaths ((namedPaths ops).foldl givePath paths) := by
  induction ops generalizing db paths with
  | nil =>
      refine ⟨rfl, fun after done => ?_⟩
      obtain rfl := Option.some.inj done
      exact known
  | cons op rest ih =>
      have allowed : (db.writeOp op).isSome = _ := known.writeOp_isSome
      rw [List.foldlM_cons]
      cases written : db.writeOp op with
      | none =>
          rw [written] at allowed
          refine ⟨?_, fun after done => by cases done⟩
          cases given : op.file?.map FileWrite.named with
          | none => simp [given] at allowed
          | some new =>
              simp only [given, Option.isSome_none, Option.all_some] at allowed
              simp [namedPaths, given, clashFree, ← allowed]
      | some middle =>
          rw [written] at allowed
          have next := known.writeOp written
          obtain ⟨commits, finalPaths⟩ := ih next
          cases given : op.file?.map FileWrite.named with
          | none =>
              rw [given] at next
              simpa [namedPaths, given] using ih next
          | some new =>
              rw [given] at next allowed
              simp only [Option.isSome_some, Option.all_some] at allowed
              simpa [namedPaths, given, clashFree, ← allowed] using ih next

theorem batchPaths_eq (batch : IterationOrder × List LiveMirrorOp) :
    batchPaths batch = namedPaths (coalescedOps batch.1 batch.2) := by
  have views (fileId : FileId) := view_coalesce FileWrite.named (fun _ _ => rfl) batch.2 fileId
  rw [batchPaths, namedPaths, coalescedOps, List.filterMap_filterMap, keys_coalesce]
  congr 1
  funext fileId
  refine (views fileId).symm.trans ?_
  cases (coalesce batch.2).find? fileId <;> rfl

/-- A batch is committed exactly if its last writes clash with no path. -/
theorem HasPaths.writeBatch {batch : IterationOrder × List LiveMirrorOp} (known : db.HasPaths paths) :
    (db.writeBatch batch.1 batch.2).isSome = clashFree paths (batchPaths batch) ∧
      ∀ after, db.writeBatch batch.1 batch.2 = some after →
        after.HasPaths ((batchPaths batch).foldl givePath paths) := by
  rw [batchPaths_eq]
  unfold Database.writeBatch
  split
  · rename_i noOps
    obtain noOps := List.isEmpty_iff.mp noOps
    have noKeys : batch.1.arrange (coalesce batch.2).keys = [] := by
      rw [noOps]
      exact (batch.1.perm _).eq_nil
    have nothing : namedPaths (coalescedOps batch.1 batch.2) = [] := by simp [coalescedOps, noKeys, namedPaths]
    rw [nothing]
    refine ⟨rfl, fun after done => ?_⟩
    obtain rfl := Option.some.inj done
    exact known
  · have ready : (db.insertWords (allNewWords (coalescedOps batch.1 batch.2))).HasPaths paths := by
      intro fileId path
      have same := records_insertWords db (allNewWords (coalescedOps batch.1 batch.2))
      exact (known fileId path).trans (by
        change (∃ row, (db.records fileId).row = some row ∧ _) ↔
          ∃ row, ((db.insertWords _).records fileId).row = some row ∧ _
        rw [same])
    exact ready.foldlM_writeOp

/-- The writer leaves the tables that its accepted batches make. -/
theorem HasPaths.writerLoop (known : db.HasPaths paths) (batches : List (IterationOrder × List LiveMirrorOp)) :
    db.writeBatches (acceptedBatches paths batches) = some (db.writerLoop batches) := by
  induction batches generalizing db paths with
  | nil => rfl
  | cons batch rest ih =>
      obtain ⟨commits, next⟩ := @HasPaths.writeBatch db paths batch known
      unfold Database.writerLoop acceptedBatches
      cases written : db.writeBatch batch.1 batch.2 with
      | none =>
          rw [written] at commits
          rw [if_neg (by simp [← commits])]
          rfl
      | some after =>
          rw [written] at commits
          rw [if_pos (by simp [← commits]), writeBatches, List.foldlM_cons, written]
          exact ih (next after written)

end Database

/-! ## Batches against one-by-one application -/

/-- Every operation in a batch of its own. -/
def oneByOne (ops : List LiveMirrorOp) : List (IterationOrder × List LiveMirrorOp) :=
  ops.map fun op => (.increasing, [op])

/-- Batched and one-by-one application end in the same tables. -/
def BatchesMatchSequence (db : Database) (batches : List (IterationOrder × List LiveMirrorOp)) : Prop :=
  db.writerLoop batches = db.writerLoop (oneByOne (batches.flatMap Prod.snd))

instance (db : Database) (batches : List (IterationOrder × List LiveMirrorOp)) :
    Decidable (BatchesMatchSequence db batches) :=
  inferInstanceAs (Decidable (_ = _))

/-- The operations of the batches that are committed. -/
def batchedOps (db : Database) (batches : List (IterationOrder × List LiveMirrorOp)) : List LiveMirrorOp :=
  (acceptedBatches db.docPaths batches).flatMap Prod.snd

/-- The operations that are committed one by one. -/
def singleOps (db : Database) (batches : List (IterationOrder × List LiveMirrorOp)) : List LiveMirrorOp :=
  batchedOps db (oneByOne (batches.flatMap Prod.snd))

/-- The operations change the row and the postings of no document. -/
def Idle (records : FileId → Database.DocRecord) (ops : List LiveMirrorOp) : Prop :=
  mirrorRules.applyAll records ops = records

/-- The condition: operations that only one of both ways commits change no document, and each
word number without a row is first offered the same word by what is committed one by one and
by the writes that no later write of their committed batch supersedes. -/
structure CommitsAlike (db : Database) (batches : List (IterationOrder × List LiveMirrorOp)) : Prop where
  single : Idle (mirrorRules.applyAll db.records (batchedOps db batches))
    ((singleOps db batches).drop (batchedOps db batches).length)
  batched : Idle (mirrorRules.applyAll db.records (singleOps db batches))
    ((batchedOps db batches).drop (singleOps db batches).length)
  offers : ∀ wordId, db.words.find? wordId = none →
    SortedMap.findEntry wordId (survivingOffers (acceptedBatches db.docPaths batches)) =
      offeredWord wordId (singleOps db batches)

theorem acceptedBatches_isInitial (paths : List (FileId × Path)) (batches : List (IterationOrder × List LiveMirrorOp)) :
    acceptedBatches paths batches <+: batches := by
  induction batches generalizing paths with
  | nil => exact List.prefix_refl _
  | cons batch rest ih =>
      unfold acceptedBatches
      split
      · exact (List.prefix_cons_inj batch).mpr (ih _)
      · exact List.nil_prefix

theorem batchedOps_isInitial (db : Database) (batches : List (IterationOrder × List LiveMirrorOp)) :
    batchedOps db batches <+: batches.flatMap Prod.snd := by
  obtain ⟨rest, whole⟩ := acceptedBatches_isInitial db.docPaths batches
  exact ⟨rest.flatMap Prod.snd, by rw [batchedOps, ← List.flatMap_append, whole]⟩

theorem flatMap_oneByOne (ops : List LiveMirrorOp) : (oneByOne ops).flatMap Prod.snd = ops := by
  rw [oneByOne, List.flatMap_map]
  exact List.flatMap_singleton' _

theorem singleOps_isInitial (db : Database) (batches : List (IterationOrder × List LiveMirrorOp)) :
    singleOps db batches <+: batches.flatMap Prod.snd := by
  have part := batchedOps_isInitial db (oneByOne (batches.flatMap Prod.snd))
  rwa [flatMap_oneByOne] at part

/-- Two prefixes of one list leave the same records exactly if what lies between them does nothing. -/
theorem applyAll_eq_iff_idle {records : FileId → Database.DocRecord} {left right ops : List LiveMirrorOp}
    (leftPart : left <+: ops) (rightPart : right <+: ops) :
    mirrorRules.applyAll records left = mirrorRules.applyAll records right ↔
      Idle (mirrorRules.applyAll records left) (right.drop left.length) ∧
        Idle (mirrorRules.applyAll records right) (left.drop right.length) := by
  have applied (first rest : List LiveMirrorOp) : mirrorRules.applyAll records (first ++ rest) =
      mirrorRules.applyAll (mirrorRules.applyAll records first) rest := List.foldl_append
  have nothing (records : FileId → Database.DocRecord) : Idle records [] := rfl
  rcases List.prefix_or_prefix_of_prefix leftPart rightPart with ⟨rest, rfl⟩ | ⟨rest, rfl⟩
  · rw [applied, List.drop_left, List.drop_eq_nil_of_le (by simp)]
    exact ⟨fun same => ⟨same.symm, nothing _⟩, fun idle => idle.1.symm⟩
  · rw [applied, List.drop_left, List.drop_eq_nil_of_le (by simp)]
    exact ⟨fun same => ⟨nothing _, same⟩, fun idle => idle.2⟩

/-- The committed operations decide what the writer leaves. -/
theorem writerLoop_spec (db : Database) (batches : List (IterationOrder × List LiveMirrorOp)) :
    (db.writerLoop batches).records = mirrorRules.applyAll db.records (batchedOps db batches) ∧
      ∀ wordId, (db.writerLoop batches).words.find? wordId = (db.words.find? wordId).or
        (SortedMap.findEntry wordId (survivingOffers (acceptedBatches db.docPaths batches))) := by
  obtain ⟨records, words⟩ := Database.writeBatches_spec (db.hasPaths_docPaths.writerLoop batches)
  refine ⟨records, fun wordId => ?_⟩
  rw [words, offeredWord_coalescedOps]

/-- Alone an operation offers its own rows. -/
theorem survivingOffers_single (db : Database) (batches : List (IterationOrder × List LiveMirrorOp)) (wordId : WordId) :
    SortedMap.findEntry wordId
        (survivingOffers (acceptedBatches db.docPaths (oneByOne (batches.flatMap Prod.snd)))) =
      offeredWord wordId (singleOps db batches) := by
  rw [← offeredWord_coalescedOps]
  obtain ⟨rest, whole⟩ := acceptedBatches_isInitial db.docPaths (oneByOne (batches.flatMap Prod.snd))
  congr 1
  refine List.flatMap_congr fun batch member => ?_
  have listed : batch ∈ oneByOne (batches.flatMap Prod.snd) := whole ▸ List.mem_append_left rest member
  obtain ⟨op, -, rfl⟩ := List.mem_map.mp listed
  exact coalescedOps_singleton _ op

/-- Batches end in the tables of one-by-one application exactly when the operations that only
one of both ways commits change no document and no first offer of a word row is superseded
inside its batch. -/
theorem batchesMatchSequence_iff (db : Database) (batches : List (IterationOrder × List LiveMirrorOp)) :
    BatchesMatchSequence db batches ↔ CommitsAlike db batches := by
  obtain ⟨batchedRecords, batchedWords⟩ := writerLoop_spec db batches
  obtain ⟨singleRecords, singleWords⟩ := writerLoop_spec db (oneByOne (batches.flatMap Prod.snd))
  simp only [survivingOffers_single] at singleWords
  have sameRecords := @applyAll_eq_iff_idle db.records _ _ _ (batchedOps_isInitial db batches) (singleOps_isInitial db batches)
  constructor
  · intro equal
    have records := congrArg Database.records equal
    rw [batchedRecords, singleRecords] at records
    obtain ⟨single, batched⟩ := sameRecords.mp records
    refine ⟨single, batched, fun wordId free => ?_⟩
    have row := (batchedWords wordId).symm.trans ((congrArg (·.words.find? wordId) equal).trans (singleWords wordId))
    simpa [free] using row
  · intro alike
    refine Database.ext_of_records ?_ ?_
    · ext1 wordId
      rw [batchedWords, singleWords]
      cases stored : db.words.find? wordId with
      | some word => rfl
      | none => rw [alike.offers wordId stored]
    · rw [batchedRecords, singleRecords]
      exact sameRecords.mpr ⟨alike.single, alike.batched⟩

/-- A file written twice while the writer is busy: the first write brings the row
of its new word, the second finds the word registered. -/
def rewrittenWhileQueued : List (IterationOrder × List LiveMirrorOp) :=
  [(.increasing,
    [.write ⟨0, "a.txt".toList, 10, 4, [(0, 1)], [(0, Word.ofAscii "WORD")], false⟩,
     .write ⟨0, "a.txt".toList, 11, 9, [(0, 2)], [], false⟩])]

/-- Two documents with one path in a batch. -/
def pathTwiceQueued : List (IterationOrder × List LiveMirrorOp) :=
  [(.increasing,
    [.write ⟨1, "a.txt".toList, 10, 4, [(0, 1)], [(0, Word.ofAscii "WORD")], false⟩,
     .write ⟨0, "a.txt".toList, 11, 9, [(0, 2)], [], false⟩])]

/-- The row of the word introduced by the superseded write is lost, and a batch that is rolled
back loses the operations before the one that fails. -/
theorem not_batchesMatchSequence_rewritten :
    ¬ BatchesMatchSequence .empty rewrittenWhileQueued ∧ ¬ BatchesMatchSequence .empty pathTwiceQueued := by
  decide

end SearchEngine.Index
