import SearchEngine.Index.WordId
import Mathlib.Data.List.Perm.Basic

/-!
# The chunked posting store

`dictionaryChunks` splits the posting lists by word number into chunks of 4096
lists, created on demand. `cell` is the observation used by every later result:
the count stored for one word number and one document.
-/

namespace SearchEngine.Index

open SearchEngine.Lib

/-- `CHUNK_SIZE`. -/
def chunkSize : Nat := 4096

/-- One `Chunk` with its bucket of posting lists. -/
structure Chunk where
  bucket : Fin chunkSize → PostingList

/-- `Chunk::Chunk`: empty posting lists. -/
def Chunk.fresh : Chunk := ⟨fun _ => ∅⟩

/-- `dictionaryChunks`; `none` is a null `unique_ptr`. -/
abbrev DictionaryChunks := List (Option Chunk)

/-- One posting on its way into the chunks. -/
structure PostingTask where
  fileId : FileId
  wordId : WordId
  count : UInt32
  deriving DecidableEq

/-- `wid / CHUNK_SIZE`. -/
def chunkIndex (wordId : WordId) : Nat := wordId / chunkSize

/-- `wid % CHUNK_SIZE`. -/
def localIndex (wordId : WordId) : Fin chunkSize := ⟨wordId % chunkSize, Nat.mod_lt _ (by decide)⟩

theorem eq_of_chunkIndex_of_localIndex {left right : WordId}
    (chunk : chunkIndex left = chunkIndex right) (position : localIndex left = localIndex right) :
    left = right := by
  have remainder : left % chunkSize = right % chunkSize := congrArg Fin.val position
  have quotient : left / chunkSize = right / chunkSize := chunk
  rw [← Nat.div_add_mod left chunkSize, ← Nat.div_add_mod right chunkSize, quotient, remainder]

namespace DictionaryChunks

/-- The chunk that stores `index`, if it exists. -/
def chunkAt (chunks : DictionaryChunks) (index : Nat) : Option Chunk := chunks[index]?.join

/-- The posting list of a word number; an absent chunk stores empty lists. -/
def postingList (chunks : DictionaryChunks) (wordId : WordId) : PostingList :=
  (chunks.chunkAt (chunkIndex wordId)).elim ∅ fun chunk => chunk.bucket (localIndex wordId)

/-- The count stored for one word number and one document. -/
def cell (chunks : DictionaryChunks) (wordId : WordId) (fileId : FileId) : Option UInt16 :=
  (chunks.postingList wordId).find? fileId

/-- Change one posting list in place; an absent chunk is left absent. -/
def modifyPosting (chunks : DictionaryChunks) (wordId : WordId)
    (change : PostingList → PostingList) : DictionaryChunks :=
  chunks.modify (chunkIndex wordId) fun chunk => chunk.map fun present =>
    ⟨Function.update present.bucket (localIndex wordId) (change (present.bucket (localIndex wordId)))⟩

/-- `resize(index + 1)` when too short, then `make_unique<Chunk>()` when null. -/
def ensureChunk (chunks : DictionaryChunks) (index : Nat) : DictionaryChunks :=
  (chunks ++ List.replicate (index + 1 - chunks.length) none).modify index fun chunk =>
    some (chunk.getD Chunk.fresh)

theorem chunkAt_modifyPosting (chunks : DictionaryChunks) (wordId : WordId)
    (change : PostingList → PostingList) (index : Nat) :
    (chunks.modifyPosting wordId change).chunkAt index =
      if chunkIndex wordId = index then
        (chunks.chunkAt index).map fun present =>
          ⟨Function.update present.bucket (localIndex wordId)
            (change (present.bucket (localIndex wordId)))⟩
      else chunks.chunkAt index := by
  unfold chunkAt modifyPosting
  rw [List.getElem?_modify]
  split
  · cases chunks[index]? with
    | none => rfl
    | some chunk => cases chunk <;> rfl
  · cases chunks[index]? <;> rfl

/-- A change of one list is seen at its word only. In an absent chunk nothing is
changed, which is invisible when the change maps the empty list to itself. -/
theorem postingList_modifyPosting (chunks : DictionaryChunks) (wordId other : WordId)
    (change : PostingList → PostingList)
    (visible : (chunks.chunkAt (chunkIndex wordId)).isSome ∨ change ∅ = ∅) :
    (chunks.modifyPosting wordId change).postingList other =
      if wordId = other then change (chunks.postingList other) else chunks.postingList other := by
  unfold postingList
  rw [chunkAt_modifyPosting]
  by_cases same : wordId = other
  · subst same
    cases found : chunks.chunkAt (chunkIndex wordId) with
    | none => simpa [found, eq_comm] using visible
    | some chunk => simp
  · by_cases sameChunk : chunkIndex wordId = chunkIndex other
    · have differ : localIndex other ≠ localIndex wordId := fun equal =>
        same (eq_of_chunkIndex_of_localIndex sameChunk equal.symm)
      cases chunks.chunkAt (chunkIndex other) <;> simp [same, sameChunk, differ]
    · simp [same, sameChunk]

theorem chunkAt_ensureChunk (chunks : DictionaryChunks) (index other : Nat) :
    (chunks.ensureChunk index).chunkAt other =
      if index = other then some ((chunks.chunkAt index).getD Chunk.fresh)
      else chunks.chunkAt other := by
  unfold chunkAt ensureChunk
  rw [List.getElem?_modify]
  have padded : ∀ position : Nat,
      (chunks ++ List.replicate (index + 1 - chunks.length) none)[position]?.join =
        chunks[position]?.join := by
    intro position
    by_cases inside : position < chunks.length
    · rw [List.getElem?_append_left inside]
    · rw [List.getElem?_append_right (by omega), List.getElem?_replicate,
        List.getElem?_eq_none (by omega)]
      split <;> rfl
  split
  · rename_i same
    subst same
    have long : index < (chunks ++ List.replicate (index + 1 - chunks.length) none).length := by
      simp
      omega
    rw [← padded index, List.getElem?_eq_getElem long]
    rfl
  · rw [← padded other]
    cases (chunks ++ List.replicate (index + 1 - chunks.length) none)[other]? <;> rfl

/-- Creating a chunk changes no posting list. -/
@[simp] theorem postingList_ensureChunk (chunks : DictionaryChunks) (index : Nat) (wordId : WordId) :
    (chunks.ensureChunk index).postingList wordId = chunks.postingList wordId := by
  unfold postingList
  rw [chunkAt_ensureChunk]
  by_cases same : index = chunkIndex wordId
  · subst same
    cases chunks.chunkAt (chunkIndex wordId) <;> simp [Chunk.fresh]
  · rw [if_neg same]

theorem isSome_chunkAt_ensureChunk {chunks : DictionaryChunks} {index other : Nat}
    (present : index = other ∨ (chunks.chunkAt other).isSome) :
    ((chunks.ensureChunk index).chunkAt other).isSome := by
  rw [chunkAt_ensureChunk]
  by_cases same : index = other
  · simp [same]
  · simpa [same] using present

/-! ## Committing postings -/

/-- `ch->bucket[local][t.fileId] += t.count`. -/
def commitTask (chunks : DictionaryChunks) (task : PostingTask) : DictionaryChunks :=
  chunks.modifyPosting task.wordId fun posting => posting.addCount task.fileId task.count

/-- What `commitTask` does to the count stored for one word and one document. -/
def addTask (wordId : WordId) (fileId : FileId) (stored : Option UInt16) (task : PostingTask) :
    Option UInt16 :=
  if task.wordId = wordId ∧ task.fileId = fileId then some (plusCount (stored.getD 0) task.count)
  else stored

/-- The effect of a list of postings on one stored count. -/
def addTasks (wordId : WordId) (fileId : FileId) (stored : Option UInt16)
    (tasks : List PostingTask) : Option UInt16 :=
  tasks.foldl (addTask wordId fileId) stored

@[simp] theorem addTasks_nil (wordId : WordId) (fileId : FileId) (stored : Option UInt16) :
    addTasks wordId fileId stored [] = stored := rfl

theorem addTasks_append (wordId : WordId) (fileId : FileId) (stored : Option UInt16)
    (first second : List PostingTask) :
    addTasks wordId fileId stored (first ++ second) =
      addTasks wordId fileId (addTasks wordId fileId stored first) second :=
  List.foldl_append

theorem addTask_comm (wordId : WordId) (fileId : FileId) (stored : Option UInt16)
    (first second : PostingTask) :
    addTask wordId fileId (addTask wordId fileId stored first) second =
      addTask wordId fileId (addTask wordId fileId stored second) first := by
  unfold addTask
  by_cases firstHits : first.wordId = wordId ∧ first.fileId = fileId <;>
    by_cases secondHits : second.wordId = wordId ∧ second.fileId = fileId <;>
    simp [firstHits, secondHits, plusCount_comm]

/-- Counts are added modulo `2 ^ 16`, so the order of the postings is immaterial. -/
theorem addTasks_perm {wordId : WordId} {fileId : FileId} {stored : Option UInt16}
    {first second : List PostingTask} (permuted : first.Perm second) :
    addTasks wordId fileId stored first = addTasks wordId fileId stored second :=
  permuted.foldl_eq' (fun left _ right _ value => addTask_comm wordId fileId value left right) stored

/-- Postings of other cells leave a stored count alone. -/
theorem addTasks_of_not_mem {wordId : WordId} {fileId : FileId} {stored : Option UInt16}
    {tasks : List PostingTask}
    (other : ∀ task ∈ tasks, ¬ (task.wordId = wordId ∧ task.fileId = fileId)) :
    addTasks wordId fileId stored tasks = stored := by
  induction tasks with
  | nil => rfl
  | cons task rest ih =>
      have untouched : addTask wordId fileId stored task = stored :=
        if_neg (other task List.mem_cons_self)
      rw [addTasks, List.foldl_cons, untouched]
      exact ih fun later member => other later (List.mem_cons_of_mem _ member)

/-- A committed posting stays listed. -/
theorem isSome_addTasks {wordId : WordId} {fileId : FileId} {stored : Option UInt16}
    (tasks : List PostingTask) (present : stored.isSome) :
    (addTasks wordId fileId stored tasks).isSome := by
  induction tasks generalizing stored with
  | nil => exact present
  | cons task rest ih =>
      refine ih ?_
      unfold addTask
      split
      · rfl
      · exact present

theorem cell_commitTask {chunks : DictionaryChunks} {task : PostingTask}
    (present : (chunks.chunkAt (chunkIndex task.wordId)).isSome) (wordId : WordId)
    (fileId : FileId) :
    (chunks.commitTask task).cell wordId fileId =
      addTask wordId fileId (chunks.cell wordId fileId) task := by
  unfold cell commitTask addTask
  rw [postingList_modifyPosting _ _ _ _ (.inl present)]
  by_cases sameWord : task.wordId = wordId
  · by_cases sameFile : task.fileId = fileId <;> simp [sameWord, sameFile]
  · simp [sameWord]

theorem isSome_chunkAt_commitTask {chunks : DictionaryChunks} (task : PostingTask) {index : Nat}
    (present : (chunks.chunkAt index).isSome) : ((chunks.commitTask task).chunkAt index).isSome := by
  unfold commitTask
  rw [chunkAt_modifyPosting]
  split
  · simpa using present
  · exact present

theorem cell_foldl_commitTask {chunks : DictionaryChunks} {tasks : List PostingTask}
    (present : ∀ task ∈ tasks, (chunks.chunkAt (chunkIndex task.wordId)).isSome)
    (wordId : WordId) (fileId : FileId) :
    (tasks.foldl commitTask chunks).cell wordId fileId =
      addTasks wordId fileId (chunks.cell wordId fileId) tasks := by
  induction tasks generalizing chunks with
  | nil => rfl
  | cons task rest ih =>
      rw [List.foldl_cons, ih, cell_commitTask (present task List.mem_cons_self)]
      · rfl
      · intro later member
        exact isSome_chunkAt_commitTask task (present later (List.mem_cons_of_mem _ member))

/-- A `chunkMap`: the postings of a batch under their chunk numbers. -/
structure ChunkMap where
  groups : SortedMap Nat (List PostingTask)
  homogeneous : ∀ {index tasks task}, groups.find? index = some tasks → task ∈ tasks →
    chunkIndex task.wordId = index

/-- `chunkMap[wid / CHUNK_SIZE].push_back(task)`. -/
def ChunkMap.push (groups : ChunkMap) (task : PostingTask) : ChunkMap where
  groups := groups.groups.insert (chunkIndex task.wordId)
    ((groups.groups.find? (chunkIndex task.wordId)).getD [] ++ [task])
  homogeneous := by
    intro index tasks other found member
    rw [SortedMap.find?_insert] at found
    split at found
    · rename_i same
      obtain rfl := Option.some.inj found
      rcases List.mem_append.mp member with old | new
      · cases stored : groups.groups.find? (chunkIndex task.wordId) with
        | none => simp [stored] at old
        | some present =>
            rw [stored, Option.getD_some] at old
            exact (groups.homogeneous stored old).trans same
      · rw [List.mem_singleton.mp new, same]
    · exact groups.homogeneous found member

/-- The grouping loop of `processBatch`. -/
def groupByChunk (tasks : List PostingTask) : ChunkMap :=
  tasks.foldl ChunkMap.push ⟨∅, by simp⟩

/-- All postings of a `chunkMap`, chunk by chunk. -/
def ChunkMap.tasks (groups : ChunkMap) : List PostingTask := groups.groups.entries.flatMap Prod.snd

theorem chunkIndex_mem_keys {groups : ChunkMap} {task : PostingTask}
    (member : task ∈ groups.tasks) : chunkIndex task.wordId ∈ groups.groups.keys := by
  obtain ⟨⟨index, tasks⟩, entry, inside⟩ := List.mem_flatMap.mp member
  have found : groups.groups.find? index = some tasks := SortedMap.mem_entries_iff.mp entry
  rw [groups.homogeneous found inside]
  exact SortedMap.mem_keys_iff.mpr ⟨tasks, found⟩

/-- The metadata phase of `commitChunkMap` under `mapMutex`: every named chunk exists. -/
def acquireChunks (chunks : DictionaryChunks) (groups : ChunkMap) : DictionaryChunks :=
  groups.groups.keys.foldl ensureChunk chunks

/-- `commitChunkMap`. -/
def commitChunkMap (chunks : DictionaryChunks) (groups : ChunkMap) : DictionaryChunks :=
  groups.tasks.foldl commitTask (chunks.acquireChunks groups)

theorem cell_foldl_ensureChunk (indices : List Nat) (chunks : DictionaryChunks) (wordId : WordId)
    (fileId : FileId) : (indices.foldl ensureChunk chunks).cell wordId fileId =
      chunks.cell wordId fileId := by
  induction indices generalizing chunks with
  | nil => rfl
  | cons index rest ih => rw [List.foldl_cons, ih, cell, cell, postingList_ensureChunk]

theorem isSome_chunkAt_foldl_ensureChunk {indices : List Nat} {chunks : DictionaryChunks}
    {index : Nat} (present : index ∈ indices ∨ (chunks.chunkAt index).isSome) :
    ((indices.foldl ensureChunk chunks).chunkAt index).isSome := by
  induction indices generalizing chunks with
  | nil => simpa using present
  | cons first rest ih =>
      rw [List.foldl_cons]
      apply ih
      rcases present with listed | old
      · rcases List.mem_cons.mp listed with same | later
        · exact .inr (isSome_chunkAt_ensureChunk (.inl same.symm))
        · exact .inl later
      · exact .inr (isSome_chunkAt_ensureChunk (.inr old))

/-- A commit adds its postings and nothing else. -/
@[simp] theorem cell_commitChunkMap (chunks : DictionaryChunks) (groups : ChunkMap) (wordId : WordId)
    (fileId : FileId) : (chunks.commitChunkMap groups).cell wordId fileId =
      addTasks wordId fileId (chunks.cell wordId fileId) groups.tasks := by
  unfold commitChunkMap acquireChunks
  rw [cell_foldl_commitTask, cell_foldl_ensureChunk]
  intro task member
  exact isSome_chunkAt_foldl_ensureChunk (.inl (chunkIndex_mem_keys member))

private theorem perm_tasks_push (groups : ChunkMap) (task : PostingTask) :
    (groups.push task).tasks.Perm (groups.tasks ++ [task]) := by
  obtain ⟨⟨entries, sorted⟩, homogeneous⟩ := groups
  simp only [ChunkMap.tasks, ChunkMap.push, SortedMap.insert, SortedMap.find?]
  clear homogeneous
  induction entries with
  | nil => simp [SortedMap.insertEntry]
  | cons entry rest ih =>
      obtain ⟨index, stored⟩ := entry
      obtain ⟨headBelow, restSorted⟩ := List.pairwise_cons.mp sorted
      simp only [SortedMap.insertEntry, SortedMap.findEntry_cons]
      by_cases below : chunkIndex task.wordId < index
      · have absent : SortedMap.findEntry (chunkIndex task.wordId) rest = none :=
          SortedMap.findEntry_eq_none_of_lt fun later member => below.trans (headBelow later member)
        rw [if_pos below, if_neg below.ne', absent]
        exact (List.perm_append_singleton task (stored ++ rest.flatMap Prod.snd)).symm
      · rw [if_neg below]
        by_cases same : chunkIndex task.wordId = index
        · rw [if_pos same, if_pos same.symm]
          simp only [List.flatMap_cons, Option.getD_some, List.append_assoc]
          have swapped : ([task] ++ rest.flatMap Prod.snd).Perm (rest.flatMap Prod.snd ++ [task]) :=
            List.perm_append_comm
          exact swapped.append_left stored
        · rw [if_neg same, if_neg (Ne.symm same)]
          simp only [List.flatMap_cons, List.append_assoc]
          exact (ih restSorted).append_left stored

/-- Grouping keeps every posting. -/
theorem perm_tasks_groupByChunk (tasks : List PostingTask) :
    (groupByChunk tasks).tasks.Perm tasks := by
  have grouped : ∀ start : ChunkMap,
      (tasks.foldl ChunkMap.push start).tasks.Perm (start.tasks ++ tasks) := by
    induction tasks with
    | nil => simp
    | cons task rest ih =>
        intro start
        rw [List.foldl_cons, List.append_cons]
        exact (ih _).trans ((perm_tasks_push start task).append_right rest)
  exact grouped ⟨∅, by simp⟩

/-! ## Erasing a document -/

/-- `if (!posting.empty()) posting.erase(fileId)`. -/
def erasePosting (fileId : FileId) (posting : PostingList) : PostingList :=
  if posting.entries = [] then posting else posting.erase fileId

@[simp] theorem find?_erasePosting (fileId other : FileId) (posting : PostingList) :
    (erasePosting fileId posting).find? other =
      if fileId = other then none else posting.find? other := by
  unfold erasePosting
  split
  · rename_i noEntries
    simp [SortedMap.find?, noEntries]
  · exact SortedMap.find?_erase posting fileId other

/-- The branch of `safeEraseFileInternal` that visits the referenced words. -/
def eraseReferenced (chunks : DictionaryChunks) (fileId : FileId) (wordIds : List WordId) :
    DictionaryChunks :=
  wordIds.foldl (fun store wordId => store.modifyPosting wordId (erasePosting fileId)) chunks

/-- The full scan of `safeEraseFileInternal`. -/
def eraseEverywhere (chunks : DictionaryChunks) (fileId : FileId) : DictionaryChunks :=
  chunks.map fun chunk => chunk.map fun present =>
    ⟨fun position => erasePosting fileId (present.bucket position)⟩

@[simp] theorem cell_eraseReferenced (chunks : DictionaryChunks) (fileId other : FileId)
    (wordIds : List WordId) (wordId : WordId) :
    (chunks.eraseReferenced fileId wordIds).cell wordId other =
      if fileId = other ∧ wordId ∈ wordIds then none else chunks.cell wordId other := by
  induction wordIds generalizing chunks with
  | nil => simp [eraseReferenced]
  | cons first rest ih =>
      rw [eraseReferenced, List.foldl_cons, ← eraseReferenced, ih, cell, cell,
        postingList_modifyPosting _ _ _ _ (.inr rfl)]
      have flipped : wordId = first ↔ first = wordId := eq_comm
      by_cases sameFile : fileId = other <;> by_cases sameWord : first = wordId <;>
        simp [sameFile, sameWord, flipped]

@[simp] theorem cell_eraseEverywhere (chunks : DictionaryChunks) (fileId other : FileId)
    (wordId : WordId) : (chunks.eraseEverywhere fileId).cell wordId other =
      if fileId = other then none else chunks.cell wordId other := by
  have visited : (chunks.eraseEverywhere fileId).chunkAt (chunkIndex wordId) =
      (chunks.chunkAt (chunkIndex wordId)).map fun present =>
        ⟨fun position => erasePosting fileId (present.bucket position)⟩ := by
    unfold chunkAt eraseEverywhere
    rw [List.getElem?_map]
    cases chunks[chunkIndex wordId]? <;> rfl
  unfold cell postingList
  rw [visited]
  cases chunks.chunkAt (chunkIndex wordId) <;> simp

/-! ## Flat dictionary -/

/-- `rebuildDictionaryFromChunksLocked`: one list for every registered word. -/
def toDictionary (chunks : DictionaryChunks) (wordCount : Nat) : List PostingList :=
  (List.range wordCount).map chunks.postingList

/-- `rebuildChunksFromDictionary` and the conversion of `prepareLegacyMutableState`. -/
def ofDictionary (dictionary : List PostingList) : DictionaryChunks :=
  (List.range ((dictionary.length + chunkSize - 1) / chunkSize)).map fun index =>
    some ⟨fun position => dictionary.getD (index * chunkSize + position) ∅⟩

@[simp] theorem getD_toDictionary (chunks : DictionaryChunks) (wordCount : Nat) (wordId : WordId) :
    (chunks.toDictionary wordCount).getD wordId ∅ =
      if wordId < wordCount then chunks.postingList wordId else ∅ := by
  unfold toDictionary
  rw [List.getD_eq_getElem?_getD, List.getElem?_map]
  split
  · rename_i bound
    simp [List.getElem?_range bound]
  · rename_i beyond
    rw [List.getElem?_eq_none (by simpa using beyond)]
    rfl

/-- The chunks built from a flat dictionary store its lists. -/
@[simp] theorem postingList_ofDictionary (dictionary : List PostingList) (wordId : WordId) :
    (ofDictionary dictionary).postingList wordId = dictionary.getD wordId ∅ := by
  have position : chunkIndex wordId * chunkSize + (localIndex wordId : Nat) = wordId := by
    rw [Nat.mul_comm]
    exact Nat.div_add_mod wordId chunkSize
  unfold postingList chunkAt ofDictionary
  rw [List.getElem?_map]
  by_cases stored : chunkIndex wordId < (dictionary.length + chunkSize - 1) / chunkSize
  · simp [List.getElem?_range stored, position]
  · rw [List.getElem?_eq_none (by simpa using stored)]
    have beyond : dictionary.length ≤ wordId := by
      unfold chunkIndex chunkSize at stored
      omega
    simp [List.getD_eq_getElem?_getD, List.getElem?_eq_none beyond]

end DictionaryChunks

end SearchEngine.Index
