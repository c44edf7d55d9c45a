import SearchEngine.Index.SystemInvariant
import Mathlib.Tactic.Positivity
import Mathlib.Algebra.Order.Field.Basic
import Mathlib.Algebra.Order.Field.Rat

/-!
# Compaction among running commits

`compact` runs on the strand while `commitChunkMap` tasks run on the CPU pool. It
counts holes and copies the dictionary under `mapMutex`, and releases the mutex in
between; a commit takes the mutex only to fetch its chunks and writes to them
afterwards. Here every lock section is a step. What holds until the renumbered
structures are swapped in is `BeforeSwap`; `compaction_preserves` follows where no
posting is pending when words are renumbered.
-/

namespace SearchEngine.Index

open SearchEngine.Lib

namespace InvertedIndex

/-- The words of one chunk without postings, as the counting loop sees them. -/
def holesInChunk (index : InvertedIndex) (chunk : Nat) : Nat :=
  (List.range (min chunkSize (index.wordIds.size - chunk * chunkSize))).countP fun position =>
    (index.dictionaryChunks.postingList (chunk * chunkSize + position)).entries.isEmpty

/-- The words no chunk of `dictionaryChunks` represents. -/
def unrepresented (index : InvertedIndex) : Nat :=
  index.wordIds.size - min index.wordIds.size (index.dictionaryChunks.length * chunkSize)

/-- Run commits one after the other. -/
def commitAll (index : InvertedIndex) (commits : List DictionaryChunks.ChunkMap) : InvertedIndex :=
  { index with dictionaryChunks := commits.foldl DictionaryChunks.commitChunkMap index.dictionaryChunks }

end InvertedIndex

/-- Where the strand task of `compact` stands. It holds `mapMutex` while counting and
copying. -/
inductive CompactPhase where
  | counting (chunk holes : Nat)
  | counted (holes : Nat)
  | copying (copied : List PostingList)
  | copied (dictionary : List PostingList)
  | finished
  deriving DecidableEq

/-- A commit that fetched its chunks from a generation of `dictionaryChunks` and has
these groups left to write. -/
structure ChunkWriter where
  generation : Nat
  groups : List (List PostingTask)

/-- A compaction and the commits posted before it. `generation` counts the chunk
vectors that were replaced. -/
structure CompactionRace where
  index : InvertedIndex
  generation : Nat
  phase : CompactPhase
  posted : List DictionaryChunks.ChunkMap
  writing : List ChunkWriter

/-- One lock section of the compaction or of a commit. -/
inductive RaceAction where
  | compact
  | acquire (position : Nat)
  | write (writer group : Nat)

namespace CompactionRace

/-- The next lock section of `compact`. -/
def compactStep (thresholdPercent : ℚ) (race : CompactionRace) : Option CompactionRace :=
  match race.phase with
  | .counting chunk holes =>
      if chunk < race.index.dictionaryChunks.length ∧ chunk * chunkSize < race.index.wordIds.size then
        some { race with phase := .counting (chunk + 1) (holes + race.index.holesInChunk chunk) }
      else some { race with phase := .counted (holes + race.index.unrepresented) }
  | .counted holes =>
      if InvertedIndex.compactRuns holes race.index.wordIds.size thresholdPercent then
        let ready : CompactPhase :=
          if race.index.dictionary.isEmpty then .copying [] else .copied race.index.dictionary
        some { race with phase := ready }
      else some { race with phase := .finished }
  | .copying copied =>
      if copied.length < race.index.wordIds.size then
        let posting := race.index.dictionaryChunks.postingList copied.length
        some { race with phase := .copying (copied ++ [posting]) }
      else some { race with phase := .copied copied }
  | .copied dictionary =>
      some { race with
        index := race.index.compacted dictionary
        generation := race.generation + 1
        phase := .finished }
  | .finished => none

/-- `mapMutex` is held by the compaction. -/
def mutexHeld : CompactPhase → Bool
  | .counting _ _ | .copying _ => true
  | _ => false

/-- The metadata phase of `commitChunkMap`. -/
def acquire (race : CompactionRace) (position : Nat) : Option CompactionRace :=
  if mutexHeld race.phase then none
  else (race.posted[position]?).map fun groups => { race with
    index := { race.index with
      dictionaryChunks := race.index.dictionaryChunks.acquireChunks groups }
    posted := race.posted.eraseIdx position
    writing := race.writing ++ [⟨race.generation, groups.groups.entries.map Prod.snd⟩] }

/-- Write one group under the mutex of its chunk. A chunk of an older generation is
no longer part of the index. -/
def write (race : CompactionRace) (writer group : Nat) : Option CompactionRace := do
  let commit ← race.writing[writer]?
  let tasks ← commit.groups[group]?
  some { race with
    index := if commit.generation = race.generation then { race.index with
        dictionaryChunks := tasks.foldl DictionaryChunks.commitTask race.index.dictionaryChunks }
      else race.index
    writing := race.writing.set writer { commit with groups := commit.groups.eraseIdx group } }

/-- The transition function. -/
def step (thresholdPercent : ℚ) (race : CompactionRace) : RaceAction → Option CompactionRace
  | .compact => race.compactStep thresholdPercent
  | .acquire position => race.acquire position
  | .write writer group => race.write writer group

/-- The race as a machine. -/
def machine (thresholdPercent : ℚ) : Machine CompactionRace RaceAction := ⟨step thresholdPercent⟩

/-- The compaction and all commits have finished. -/
def Finished (race : CompactionRace) : Prop :=
  race.phase = .finished ∧ race.posted = [] ∧ ∀ commit ∈ race.writing, commit.groups = []

instance (race : CompactionRace) : Decidable race.Finished :=
  decidable_of_iff (race.phase = .finished ∧ race.posted.isEmpty = true ∧
    ∀ commit ∈ race.writing, commit.groups = []) (by rw [Finished, List.isEmpty_iff])

/-- The postings that are not written. -/
def remaining (race : CompactionRace) : List PostingTask :=
  race.posted.flatMap DictionaryChunks.ChunkMap.tasks ++
    race.writing.flatMap fun commit => commit.groups.flatten

end CompactionRace

/-- The race of a compaction that starts in this state. It leaves the index alone
while an update runs; a flat dictionary is counted in one section. -/
def System.race (s : System) : CompactionRace where
  index := s.index
  generation := 0
  phase :=
    if s.updating then .finished
    else if s.index.dictionary.isEmpty then .counting 0 0 else .counted s.index.holes
  posted := s.commits
  writing := []

namespace InvertedIndex

/-! ## Counting holes chunk by chunk -/

/-- The holes among the first words. -/
def holesBelow (index : InvertedIndex) (bound : Nat) : Nat :=
  (List.range bound).countP fun wordId => (index.dictionaryChunks.postingList wordId).entries.isEmpty

theorem holesBelow_add (index : InvertedIndex) (bound more : Nat) :
    index.holesBelow (bound + more) = index.holesBelow bound +
      (List.range more).countP fun position =>
        (index.dictionaryChunks.postingList (bound + position)).entries.isEmpty := by
  rw [holesBelow, List.range_add, List.countP_append, List.countP_map]
  rfl

/-- Counting one more chunk. -/
theorem holesBelow_succ_chunk {index : InvertedIndex} {chunk : Nat}
    (inside : chunk * chunkSize < index.wordIds.size) :
    index.holesBelow (min index.wordIds.size ((chunk + 1) * chunkSize)) =
      index.holesBelow (min index.wordIds.size (chunk * chunkSize)) + index.holesInChunk chunk := by
  have split : min index.wordIds.size ((chunk + 1) * chunkSize) =
      chunk * chunkSize + min chunkSize (index.wordIds.size - chunk * chunkSize) := by
    rw [Nat.add_mul, Nat.one_mul]
    omega
  rw [split, holesBelow_add, Nat.min_eq_right inside.le]
  rfl

/-- A word outside all chunks has no postings. -/
theorem postingList_of_unrepresented {chunks : DictionaryChunks} {wordId : WordId}
    (outside : chunks.length * chunkSize ≤ wordId) : chunks.postingList wordId = ∅ := by
  have absent : chunks.chunkAt (chunkIndex wordId) = none := by
    have beyond : chunks.length ≤ chunkIndex wordId :=
      (Nat.le_div_iff_mul_le (by decide)).mpr outside
    rw [DictionaryChunks.chunkAt, List.getElem?_eq_none beyond]
    rfl
  rw [DictionaryChunks.postingList, absent]
  rfl

/-- The counting loop ends with all holes of an index counted whose lists can only
have been filled since. -/
theorem holesBelow_size {base index : InvertedIndex} (wordIds : index.wordIds = base.wordIds)
    (grown : ∀ wordId, (base.dictionaryChunks.postingList wordId).entries ≠ [] →
      (index.dictionaryChunks.postingList wordId).entries ≠ []) {chunk : Nat}
    (inside : chunk ≤ index.dictionaryChunks.length)
    (done : ¬ (chunk < index.dictionaryChunks.length ∧ chunk * chunkSize < base.wordIds.size)) :
    base.holesBelow base.wordIds.size =
      base.holesBelow (min base.wordIds.size (chunk * chunkSize)) + index.unrepresented := by
  by_cases counted : base.wordIds.size ≤ chunk * chunkSize
  · have represented : base.wordIds.size ≤ index.dictionaryChunks.length * chunkSize :=
      counted.trans (Nat.mul_le_mul_right _ inside)
    rw [unrepresented, wordIds, Nat.min_eq_left counted, Nat.min_eq_left represented, Nat.sub_self,
      Nat.add_zero]
  · have last : chunk = index.dictionaryChunks.length := by omega
    have split : base.wordIds.size = chunk * chunkSize + (base.wordIds.size - chunk * chunkSize) := by
      omega
    have empty : ∀ position ∈ List.range (base.wordIds.size - chunk * chunkSize),
        (base.dictionaryChunks.postingList (chunk * chunkSize + position)).entries.isEmpty = true := by
      intro position _
      rw [List.isEmpty_iff]
      by_contra filled
      refine grown _ filled ?_
      rw [postingList_of_unrepresented (last ▸ Nat.le_add_right _ _)]
      rfl
    rw [unrepresented, wordIds, ← last, Nat.min_eq_right (not_le.mp counted).le]
    conv => lhs; rw [split]
    rw [holesBelow_add, List.countP_eq_length.mpr empty, List.length_range]

theorem holes_eq_holesBelow {index : InvertedIndex} (flat : index.dictionary = []) :
    index.holes = index.holesBelow index.wordIds.size := by
  rw [holes, holesBelow]
  simp only [activePosting, flat, List.isEmpty_nil, if_true]

/-- Filling holes leaves fewer of them. -/
theorem holesInChunk_le {base index : InvertedIndex} (wordIds : index.wordIds = base.wordIds)
    (grown : ∀ wordId, (base.dictionaryChunks.postingList wordId).entries ≠ [] →
      (index.dictionaryChunks.postingList wordId).entries ≠ []) (chunk : Nat) :
    index.holesInChunk chunk ≤ base.holesInChunk chunk := by
  rw [holesInChunk, holesInChunk, wordIds]
  refine List.countP_mono_left fun position _ hole => ?_
  rw [List.isEmpty_iff] at hole ⊢
  by_contra filled
  exact grown _ filled hole

theorem holePercent_mono {fewer more : Nat} (le : fewer ≤ more) (dictSize : Nat) :
    holePercent fewer dictSize ≤ holePercent more dictSize := by
  unfold holePercent
  split
  · exact le_rfl
  have counts : toDouble (fewer : ℚ) ≤ toDouble more := toDouble_mono (by positivity) (by exact_mod_cast le)
  have few : (0 : ℚ) ≤ toDouble fewer := toDouble_nonneg (by positivity)
  have size : (0 : ℚ) ≤ toDouble dictSize := toDouble_nonneg (by positivity)
  have scaled := toDouble_mono (by positivity) (mul_le_mul_of_nonneg_right counts (by norm_num : (0 : ℚ) ≤ 100))
  have product : 0 ≤ toDouble (toDouble fewer * 100) := toDouble_nonneg (by positivity)
  exact toDouble_mono (by positivity) (div_le_div_of_nonneg_right scaled size)

/-- Fewer holes make no compaction run that more holes would not. -/
theorem compactRuns_mono {fewer more dictSize : Nat} {thresholdPercent : ℚ} (le : fewer ≤ more)
    (runs : compactRuns fewer dictSize thresholdPercent = true) :
    compactRuns more dictSize thresholdPercent = true := by
  simp only [compactRuns, belowThreshold, Bool.and_eq_true, decide_eq_true_eq, Bool.not_eq_true',
    decide_eq_false_iff_not, not_lt] at runs ⊢
  exact ⟨by omega, runs.2.trans (holePercent_mono le dictSize)⟩

end InvertedIndex

/-! ## Until the swap -/

namespace CompactionRace

variable {s : System} {thresholdPercent : ℚ} {race next : CompactionRace}

/-- What the compaction knows in each phase. Its count is exact when no posting was
pending at the start, and never too large. -/
def PhaseKnows (s : System) (thresholdPercent : ℚ) (race : CompactionRace) : Prop :=
  match race.phase with
  | .counting chunk holes => chunk ≤ race.index.dictionaryChunks.length ∧
      holes ≤ s.index.holesBelow (min s.index.wordIds.size (chunk * chunkSize)) ∧
      (s.pendingTasks = [] →
        holes = s.index.holesBelow (min s.index.wordIds.size (chunk * chunkSize)))
  | .counted holes => holes ≤ s.index.holes ∧ (s.pendingTasks = [] → holes = s.index.holes)
  | .copying copied => s.Renumbers thresholdPercent ∧ (s.pendingTasks = [] →
      copied.length ≤ s.index.wordIds.size ∧
        copied = (List.range copied.length).map s.index.dictionaryChunks.postingList)
  | .copied dictionary => s.Renumbers thresholdPercent ∧
      (s.pendingTasks = [] → dictionary = s.index.rebuiltDictionary)
  | .finished => s.pendingTasks = [] → ¬ s.Renumbers thresholdPercent

/-- What holds of the race until the renumbered structures are swapped in. -/
structure BeforeSwap (s : System) (thresholdPercent : ℚ) (race : CompactionRace) : Prop where
  wordIds : race.index.wordIds = s.index.wordIds
  wordRefs : race.index.wordRefs = s.index.wordRefs
  flat : race.index.dictionary = []
  idle : race.phase ≠ .finished → s.updating = false
  current : ∀ commit ∈ race.writing, commit.generation = race.generation
  fetched : ∀ commit ∈ race.writing, ∀ group ∈ commit.groups, ∀ task ∈ group,
    (race.index.dictionaryChunks.chunkAt (chunkIndex task.wordId)).isSome
  drained : ∀ wordId fileId,
    race.index.drained race.remaining wordId fileId = s.index.drained s.pendingTasks wordId fileId
  grown : ∀ wordId, (s.index.dictionaryChunks.postingList wordId).entries ≠ [] →
    (race.index.dictionaryChunks.postingList wordId).entries ≠ []
  quiet : s.pendingTasks = [] → race.remaining = []
  phase : race.PhaseKnows s thresholdPercent

/-- What holds once the renumbered structures are in place and nothing was pending. -/
structure AfterSwap (s : System) (thresholdPercent : ℚ) (race : CompactionRace) : Prop where
  renumbers : s.Renumbers thresholdPercent
  wordIds : race.index.wordIds = (s.index.compacted s.index.rebuiltDictionary).wordIds
  wordRefs : race.index.wordRefs = (s.index.compacted s.index.rebuiltDictionary).wordRefs
  flat : race.index.dictionary = []
  finished : race.phase = .finished
  cells : ∀ wordId fileId, race.index.dictionaryChunks.cell wordId fileId =
    (s.index.compacted s.index.rebuiltDictionary).dictionaryChunks.cell wordId fileId
  quiet : race.remaining = []

/-- Lists with the same counts are equal. -/
theorem postingList_eq_of_cell {left right : DictionaryChunks} {wordId : WordId}
    (same : ∀ fileId, left.cell wordId fileId = right.cell wordId fileId) :
    left.postingList wordId = right.postingList wordId := by
  ext1 fileId
  exact same fileId

theorem entries_ne_nil_iff {chunks : DictionaryChunks} {wordId : WordId} :
    (chunks.postingList wordId).entries ≠ [] ↔ ∃ fileId, (chunks.cell wordId fileId).isSome := by
  constructor
  · intro filled
    obtain ⟨⟨fileId, count⟩, member⟩ := List.exists_mem_of_ne_nil _ filled
    exact ⟨fileId, Option.isSome_iff_exists.mpr ⟨count, SortedMap.mem_entries_iff.mp member⟩⟩
  · rintro ⟨fileId, present⟩
    obtain ⟨count, found⟩ := Option.isSome_iff_exists.mp present
    exact List.ne_nil_of_mem (SortedMap.mem_entries_iff.mpr found)

/-- Without pending postings the chunks store what they stored at the start. -/
theorem BeforeSwap.postingList_eq (before : race.BeforeSwap s thresholdPercent)
    (settled : s.pendingTasks = []) (wordId : WordId) :
    race.index.dictionaryChunks.postingList wordId = s.index.dictionaryChunks.postingList wordId := by
  refine postingList_eq_of_cell fun fileId => ?_
  have drained := before.drained wordId fileId
  rw [before.quiet settled, settled] at drained
  exact drained

/-- Two indexes with the same numbers and lists see the same holes in a chunk. -/
theorem holesInChunk_congr {left right : InvertedIndex} (wordIds : left.wordIds = right.wordIds)
    (same : ∀ wordId, left.dictionaryChunks.postingList wordId =
      right.dictionaryChunks.postingList wordId) (chunk : Nat) :
    left.holesInChunk chunk = right.holesInChunk chunk := by
  rw [InvertedIndex.holesInChunk, InvertedIndex.holesInChunk, wordIds]
  simp only [same]

/-- A phase of the compaction before the swap. -/
theorem BeforeSwap.withPhase (before : race.BeforeSwap s thresholdPercent) {phase : CompactPhase}
    (idle : phase ≠ .finished → s.updating = false)
    (knows : ({ race with phase := phase } : CompactionRace).PhaseKnows s thresholdPercent) :
    ({ race with phase := phase } : CompactionRace).BeforeSwap s thresholdPercent :=
  { before with idle := idle, phase := knows }

/-- A step of the compaction keeps what holds before the swap or is the swap. -/
theorem BeforeSwap.compactStep (before : race.BeforeSwap s thresholdPercent)
    (flat : s.index.dictionary = [])
    (safe : s.Renumbers thresholdPercent → s.pendingTasks = [])
    (done : race.compactStep thresholdPercent = some next) :
    next.BeforeSwap s thresholdPercent ∨ next.AfterSwap s thresholdPercent := by
  have knows := before.phase
  unfold PhaseKnows at knows
  unfold CompactionRace.compactStep at done
  have idle := before.idle
  rw [before.wordIds] at done
  cases phase : race.phase with
  | counting chunk holes =>
      simp only [phase] at knows done idle
      obtain ⟨inside, atMost, exact_of⟩ := knows
      split at done
      · rename_i more
        obtain rfl := Option.some.inj done
        refine .inl (before.withPhase (fun _ => idle nofun) ⟨more.1, ?_, fun settled => ?_⟩)
        · rw [InvertedIndex.holesBelow_succ_chunk more.2]
          exact Nat.add_le_add atMost
            (InvertedIndex.holesInChunk_le before.wordIds before.grown chunk)
        · rw [InvertedIndex.holesBelow_succ_chunk more.2, exact_of settled,
            holesInChunk_congr before.wordIds (before.postingList_eq settled)]
      · rename_i last
        obtain rfl := Option.some.inj done
        have all := InvertedIndex.holesBelow_size before.wordIds before.grown inside last
        rw [← InvertedIndex.holes_eq_holesBelow flat] at all
        refine .inl (before.withPhase (fun _ => idle nofun) ⟨?_, fun settled => ?_⟩)
        · rw [all]
          exact Nat.add_le_add_right atMost _
        · rw [all, exact_of settled]
  | counted holes =>
      simp only [phase] at knows done idle
      obtain ⟨atMost, exact_of⟩ := knows
      split at done
      · rename_i runs
        obtain rfl := Option.some.inj done
        have renumbers : s.Renumbers thresholdPercent :=
          ⟨idle nofun, InvertedIndex.compactRuns_mono atMost runs⟩
        rw [before.flat, List.isEmpty_nil, if_pos rfl]
        exact .inl (before.withPhase (fun _ => idle nofun)
          ⟨renumbers, fun _ => ⟨Nat.zero_le _, rfl⟩⟩)
      · rename_i stays
        obtain rfl := Option.some.inj done
        refine .inl (before.withPhase (fun impossible => absurd rfl impossible) ?_)
        intro settled renumbers
        rw [exact_of settled] at stays
        exact stays renumbers.2
  | copying copied =>
      simp only [phase] at knows done idle
      obtain ⟨renumbers, exact_of⟩ := knows
      split at done
      · rename_i more
        obtain rfl := Option.some.inj done
        refine .inl (before.withPhase (fun _ => idle nofun) ⟨renumbers, fun settled => ?_⟩)
        obtain ⟨_, same⟩ := exact_of settled
        rw [List.length_append, List.length_singleton, List.range_succ, List.map_append, ← same,
          before.postingList_eq settled]
        exact ⟨more, rfl⟩
      · rename_i last
        obtain rfl := Option.some.inj done
        refine .inl (before.withPhase (fun _ => idle nofun) ⟨renumbers, fun settled => ?_⟩)
        obtain ⟨bound, same⟩ := exact_of settled
        have all : copied.length = s.index.wordIds.size := le_antisymm bound (not_lt.mp last)
        rw [same, all, InvertedIndex.rebuiltDictionary, flat]
        rfl
  | copied dictionary =>
      simp only [phase] at knows done
      obtain ⟨renumbers, exact_of⟩ := knows
      obtain rfl := Option.some.inj done
      have settled := safe renumbers
      rw [exact_of settled]
      have sameRefs := before.wordRefs
      refine .inr ⟨renumbers, ?_, ?_, rfl, rfl, fun _ _ => ?_, before.quiet settled⟩
      · simp only [InvertedIndex.compacted, before.wordIds]
      · simp only [InvertedIndex.compacted, before.wordIds, sameRefs]
      · simp only [InvertedIndex.compacted, before.wordIds]
  | finished => simp [phase] at done

/-! ## Commits -/

theorem length_foldl_commitTask (tasks : List PostingTask) (chunks : DictionaryChunks) :
    (tasks.foldl DictionaryChunks.commitTask chunks).length = chunks.length := by
  induction tasks generalizing chunks with
  | nil => rfl
  | cons task rest ih =>
      rw [List.foldl_cons, ih, DictionaryChunks.commitTask, DictionaryChunks.modifyPosting,
        List.length_modify]

theorem isSome_chunkAt_foldl_commitTask (tasks : List PostingTask) {chunks : DictionaryChunks}
    {index : Nat} (present : (chunks.chunkAt index).isSome) :
    ((tasks.foldl DictionaryChunks.commitTask chunks).chunkAt index).isSome := by
  induction tasks generalizing chunks with
  | nil => exact present
  | cons task rest ih => exact ih (DictionaryChunks.isSome_chunkAt_commitTask task present)

/-- What a commit does that fetches its chunks. -/
theorem acquire_spec {position : Nat} (done : race.acquire position = some next) :
    mutexHeld race.phase = false ∧ next.phase = race.phase ∧ next.remaining.Perm race.remaining ∧
      ∃ groups, groups ∈ race.posted ∧
        next.writing = race.writing ++ [⟨race.generation, groups.groups.entries.map Prod.snd⟩] ∧
        next.generation = race.generation ∧ next.index = { race.index with
          dictionaryChunks := race.index.dictionaryChunks.acquireChunks groups } := by
  unfold CompactionRace.acquire at done
  split at done
  · cases done
  rename_i free
  obtain ⟨groups, found, rfl⟩ := Option.map_eq_some_iff.mp done
  obtain ⟨bound, atPosition⟩ := List.getElem?_eq_some_iff.mp found
  have permuted : race.posted.Perm (groups :: race.posted.eraseIdx position) :=
    atPosition ▸ (List.getElem_cons_eraseIdx_perm bound).symm
  have fetched : (groups.groups.entries.map Prod.snd).flatten = groups.tasks := by
    rw [DictionaryChunks.ChunkMap.tasks, List.flatMap_def]
  refine ⟨Bool.eq_false_iff.mpr free, rfl, ?_, groups, List.mem_of_getElem? found, rfl, rfl, rfl⟩
  rw [remaining, remaining, List.flatMap_append, List.flatMap_singleton, fetched]
  refine .trans ?_ ((permuted.flatMap_right _).append_right _).symm
  rw [List.flatMap_cons, ← List.append_assoc]
  exact List.perm_append_comm.trans (by rw [List.append_assoc])

/-- What a commit does that writes one group. -/
theorem write_spec {writer group : Nat} (done : race.write writer group = some next) :
    ∃ commit tasks, commit ∈ race.writing ∧ tasks ∈ commit.groups ∧ next.phase = race.phase ∧
      next.generation = race.generation ∧
      (∀ later ∈ next.writing, later ∈ race.writing ∨
        later.generation = commit.generation ∧ ∀ listed ∈ later.groups, listed ∈ commit.groups) ∧
      race.remaining.Perm (tasks ++ next.remaining) ∧
      next.index = if commit.generation = race.generation then { race.index with
          dictionaryChunks := tasks.foldl DictionaryChunks.commitTask race.index.dictionaryChunks }
        else race.index := by
  unfold CompactionRace.write at done
  obtain ⟨commit, found, done⟩ := Option.bind_eq_some_iff.mp done
  obtain ⟨tasks, listed, done⟩ := Option.bind_eq_some_iff.mp done
  obtain rfl := Option.some.inj done
  obtain ⟨bound, rfl⟩ := List.getElem?_eq_some_iff.mp found
  obtain ⟨groupBound, rfl⟩ := List.getElem?_eq_some_iff.mp listed
  refine ⟨race.writing[writer], race.writing[writer].groups[group], List.getElem_mem _,
    List.getElem_mem _, rfl, rfl, ?_, ?_, rfl⟩
  · intro later member
    rcases List.mem_or_eq_of_mem_set member with old | rfl
    · exact .inl old
    · exact .inr ⟨rfl, fun _ kept => List.mem_of_mem_eraseIdx kept⟩
  · have before : race.writing.Perm (race.writing[writer] :: race.writing.eraseIdx writer) :=
      (List.getElem_cons_eraseIdx_perm bound).symm
    have groups := (List.getElem_cons_eraseIdx_perm groupBound).symm.flatten
    rw [List.flatten_cons] at groups
    have after := (List.set_perm_cons_eraseIdx bound
      ({ race.writing[writer] with groups := race.writing[writer].groups.eraseIdx group } :
        ChunkWriter)).flatMap_right fun commit => commit.groups.flatten
    rw [List.flatMap_cons] at after
    have all := before.flatMap_right fun commit : ChunkWriter => commit.groups.flatten
    rw [List.flatMap_cons] at all
    rw [remaining, remaining]
    refine .trans ?_ (List.perm_append_comm_assoc _ _ _)
    refine .append_left _ (all.trans ?_)
    refine .trans (groups.append_right _) ?_
    rw [List.append_assoc]
    exact after.symm.append_left _

theorem BeforeSwap.acquire {position : Nat} (before : race.BeforeSwap s thresholdPercent)
    (done : race.acquire position = some next) : next.BeforeSwap s thresholdPercent := by
  obtain ⟨free, phase, remaining, groups, _, writing, generation, index⟩ := acquire_spec done
  have cells : ∀ wordId fileId, next.index.dictionaryChunks.cell wordId fileId =
      race.index.dictionaryChunks.cell wordId fileId := by
    intro wordId fileId
    rw [index]
    exact DictionaryChunks.cell_foldl_ensureChunk _ _ wordId fileId
  constructor
  case wordIds => rw [index]; exact before.wordIds
  case wordRefs => rw [index]; exact before.wordRefs
  case flat => rw [index]; exact before.flat
  case idle => rw [phase]; exact before.idle
  case current =>
    intro commit member
    rw [generation]
    rw [writing] at member
    rcases List.mem_append.mp member with old | new
    · exact before.current commit old
    · rw [List.mem_singleton.mp new]
  case fetched =>
    intro commit member group listed task inside
    rw [index]
    rw [writing] at member
    rcases List.mem_append.mp member with old | new
    · exact DictionaryChunks.isSome_chunkAt_foldl_ensureChunk
        (.inr (before.fetched commit old group listed task inside))
    · rw [List.mem_singleton.mp new] at listed
      have ours : task ∈ groups.tasks := by
        obtain ⟨entry, stored, rfl⟩ := List.mem_map.mp listed
        exact List.mem_flatMap.mpr ⟨entry, stored, inside⟩
      exact DictionaryChunks.isSome_chunkAt_foldl_ensureChunk
        (.inl (DictionaryChunks.chunkIndex_mem_keys ours))
  case drained =>
    intro wordId fileId
    rw [InvertedIndex.drained, cells, DictionaryChunks.addTasks_perm remaining]
    exact before.drained wordId fileId
  case grown =>
    intro wordId filled
    rw [postingList_eq_of_cell (cells wordId)]
    exact before.grown wordId filled
  case quiet =>
    intro settled
    have none := before.quiet settled
    rw [none] at remaining
    exact remaining.eq_nil
  case phase =>
    have knows := before.phase
    unfold PhaseKnows at knows ⊢
    rw [phase]
    cases held : race.phase with
    | counting chunk holes =>
        rw [held] at free
        cases free
    | counted holes => simpa only [held] using knows
    | copying copied => simpa only [held] using knows
    | copied dictionary => simpa only [held] using knows
    | finished => simpa only [held] using knows

theorem BeforeSwap.write {writer group : Nat} (before : race.BeforeSwap s thresholdPercent)
    (done : race.write writer group = some next) : next.BeforeSwap s thresholdPercent := by
  obtain ⟨commit, tasks, member, listed, phase, generation, writing, remaining, index⟩ := write_spec done
  rw [if_pos (before.current commit member)] at index
  have present := before.fetched commit member tasks listed
  have cells : ∀ wordId fileId, next.index.dictionaryChunks.cell wordId fileId =
      DictionaryChunks.addTasks wordId fileId (race.index.dictionaryChunks.cell wordId fileId) tasks := by
    intro wordId fileId
    rw [index]
    exact DictionaryChunks.cell_foldl_commitTask present wordId fileId
  have length : next.index.dictionaryChunks.length = race.index.dictionaryChunks.length := by
    rw [index]
    exact length_foldl_commitTask tasks _
  constructor
  case wordIds => rw [index]; exact before.wordIds
  case wordRefs => rw [index]; exact before.wordRefs
  case flat => rw [index]; exact before.flat
  case idle => rw [phase]; exact before.idle
  case current =>
    intro later inside
    rw [generation]
    rcases writing later inside with old | ⟨same, _⟩
    · exact before.current later old
    · rw [same]
      exact before.current commit member
  case fetched =>
    intro later inside kept keptListed task taskInside
    rw [index]
    refine isSome_chunkAt_foldl_commitTask tasks ?_
    rcases writing later inside with old | ⟨_, groups⟩
    · exact before.fetched later old kept keptListed task taskInside
    · exact before.fetched commit member kept (groups kept keptListed) task taskInside
  case drained =>
    intro wordId fileId
    rw [InvertedIndex.drained, cells, ← DictionaryChunks.addTasks_append,
      ← DictionaryChunks.addTasks_perm remaining]
    exact before.drained wordId fileId
  case grown =>
    intro wordId filled
    obtain ⟨fileId, stored⟩ := entries_ne_nil_iff.mp (before.grown wordId filled)
    refine entries_ne_nil_iff.mpr ⟨fileId, ?_⟩
    rw [cells]
    exact DictionaryChunks.isSome_addTasks tasks stored
  case quiet =>
    intro settled
    have none := before.quiet settled
    rw [none] at remaining
    exact (List.append_eq_nil_iff.mp remaining.symm.eq_nil).2
  case phase =>
    have knows := before.phase
    unfold PhaseKnows at knows ⊢
    rw [phase, length]
    exact knows

/-- After the swap the remaining commits have nothing to write. -/
theorem AfterSwap.step {action : RaceAction} (after : race.AfterSwap s thresholdPercent)
    (done : race.step thresholdPercent action = some next) : next.AfterSwap s thresholdPercent := by
  cases action with
  | compact =>
      simp only [CompactionRace.step, CompactionRace.compactStep, after.finished] at done
      cases done
  | acquire position =>
      obtain ⟨_, phase, remaining, groups, _, _, _, index⟩ := acquire_spec done
      rw [after.quiet] at remaining
      constructor
      case renumbers => exact after.renumbers
      case wordIds => rw [index]; exact after.wordIds
      case wordRefs => rw [index]; exact after.wordRefs
      case flat => rw [index]; exact after.flat
      case finished => exact phase.trans after.finished
      case cells =>
        intro wordId fileId
        rw [index]
        exact (DictionaryChunks.cell_foldl_ensureChunk _ _ wordId fileId).trans
          (after.cells wordId fileId)
      case quiet => exact remaining.eq_nil
  | write writer group =>
      obtain ⟨commit, tasks, _, _, phase, _, _, remaining, index⟩ := write_spec done
      rw [after.quiet] at remaining
      obtain ⟨noTasks, quiet⟩ := List.append_eq_nil_iff.mp remaining.symm.eq_nil
      have unchanged : next.index = race.index := by
        rw [index, noTasks]
        split <;> rfl
      exact {
        renumbers := after.renumbers
        wordIds := unchanged ▸ after.wordIds
        wordRefs := unchanged ▸ after.wordRefs
        flat := unchanged ▸ after.flat
        finished := phase.trans after.finished
        cells := unchanged ▸ after.cells
        quiet := quiet }

/-! ## Whole races -/

/-- The start of a race in a coherent state. -/
theorem beforeSwap_start (flat : s.index.dictionary = []) : s.race.BeforeSwap s thresholdPercent := by
  constructor
  case wordIds => rfl
  case wordRefs => rfl
  case flat => exact flat
  case idle =>
    intro running
    by_contra updating
    rw [Bool.not_eq_false] at updating
    exact running (if_pos updating)
  case current => exact fun _ member => absurd member List.not_mem_nil
  case fetched => exact fun _ member => absurd member List.not_mem_nil
  case drained =>
    intro wordId fileId
    rw [remaining, System.race, List.flatMap_nil, List.append_nil]
    rfl
  case grown => exact fun _ filled => filled
  case quiet =>
    intro settled
    rw [remaining, System.race, List.flatMap_nil, List.append_nil]
    exact settled
  case phase =>
    unfold PhaseKnows System.race
    by_cases updating : s.updating = true
    · rw [if_pos updating]
      exact fun _ renumbers => by simp [renumbers.1] at updating
    · rw [if_neg updating, flat]
      exact ⟨Nat.zero_le _, Nat.zero_le _, fun _ => by simp [InvertedIndex.holesBelow]⟩

theorem race_invariant {schedule : List RaceAction} (flat : s.index.dictionary = [])
    (safe : s.Renumbers thresholdPercent → s.pendingTasks = [])
    (done : (machine thresholdPercent).run s.race schedule = some race) :
    race.BeforeSwap s thresholdPercent ∨ race.AfterSwap s thresholdPercent := by
  let invariant : CompactionRace → Prop := fun race =>
    race.BeforeSwap s thresholdPercent ∨ race.AfterSwap s thresholdPercent
  have kept : ∀ race action next, invariant race → True →
      (machine thresholdPercent).step race action = some next → invariant next := by
    rintro race action next (before | after) - taken
    · cases action with
      | compact => exact before.compactStep flat safe taken
      | acquire position => exact .inl (before.acquire taken)
      | write writer group => exact .inl (before.write taken)
    · exact .inr (after.step taken)
  have every : (machine thresholdPercent).Conforms (fun _ _ => True) s.race schedule :=
    Machine.conforms_of_forall (fun _ _ => trivial) s.race schedule
  have initial : invariant s.race := .inl (beforeSwap_start flat)
  exact Machine.invariant_run kept initial every done

theorem remaining_of_finished (finished : race.Finished) : race.remaining = [] := by
  obtain ⟨_, posted, written⟩ := finished
  rw [remaining, posted, List.flatMap_nil, List.nil_append, List.flatMap_eq_nil_iff]
  intro commit member
  rw [written commit member, List.flatten_nil]

end CompactionRace

/-- What a finished compaction and the commits before it must leave behind: every
answer of the commits alone, a bijective word table that keeps every word with
postings, and exact word references. -/
structure CompactionPreserves (index : InvertedIndex) (commits : List DictionaryChunks.ChunkMap)
    (final : InvertedIndex) : Prop where
  postings : ∀ word,
    final.getPostingCopyByWord word = (index.commitAll commits).getPostingCopyByWord word
  bijective : final.wordIds.Bijective
  kept : ∀ word, (index.commitAll commits).getPostingCopyByWord word ≠ none →
    (final.wordIds.tryGet word).isSome
  references : ∀ fileId wordId, wordId ∈ final.refsOf fileId ↔
    ∃ word, final.wordIds.tryGet word = some wordId ∧ (final.answer word fileId).isSome

/-- The condition under which compaction preserves the index: nothing is pending
when words are renumbered, and without a renumbering the word table is bijective. -/
def System.CompactionSafe (s : System) (thresholdPercent : ℚ) : Prop :=
  (s.Renumbers thresholdPercent → s.pendingTasks = []) ∧
    (¬ s.Renumbers thresholdPercent → s.index.wordIds.Bijective)

instance (s : System) (thresholdPercent : ℚ) : Decidable (s.CompactionSafe thresholdPercent) :=
  inferInstanceAs (Decidable (_ ∧ _))

namespace InvertedIndex

variable {index : InvertedIndex} {busy : FileId → Prop} {expected : FileId → Word → Option UInt16}
  {bound : FileId}

/-- References are exact when nothing is pending. -/
theorem PostingsInvariant.references (invariant : index.PostingsInvariant [] busy expected bound)
    (fileId : FileId) (wordId : WordId) : wordId ∈ index.refsOf fileId ↔
      ∃ word, index.wordIds.tryGet word = some wordId ∧ (index.answer word fileId).isSome := by
  have answered : ∀ word, index.wordIds.tryGet word = some wordId →
      index.answer word fileId = index.drained [] wordId fileId := by
    intro word number
    rw [answer_eq_drainedAnswer invariant.flat, drainedAnswer, number, Option.bind_some]
  rw [invariant.referenced]
  constructor
  · intro present
    obtain ⟨_, word, number⟩ := invariant.located fileId wordId present
    exact ⟨word, number, answered word number ▸ present⟩
  · rintro ⟨word, number, present⟩
    rwa [answered word number] at present

/-- The same counts and references under the same numbers. -/
theorem PostingsInvariant.of_drained {other : InvertedIndex} {tasks otherTasks : List PostingTask}
    (invariant : index.PostingsInvariant tasks busy expected bound)
    (wordIds : other.wordIds = index.wordIds) (wordRefs : other.wordRefs = index.wordRefs)
    (flat : other.dictionary = []) (same : ∀ wordId fileId,
      other.drained otherTasks wordId fileId = index.drained tasks wordId fileId) :
    other.PostingsInvariant otherTasks busy expected bound := by
  constructor
  case flat => exact flat
  case referenced =>
    intro fileId wordId
    rw [refsOf, wordRefs, same]
    exact invariant.referenced fileId wordId
  case located =>
    intro fileId wordId present
    rw [same] at present
    rw [wordIds]
    exact invariant.located fileId wordId present
  case erased =>
    intro fileId isBusy wordId
    rw [same]
    exact invariant.erased fileId isBusy wordId
  case stored =>
    intro fileId idle word
    rw [← invariant.stored fileId idle word, drainedAnswer, drainedAnswer, wordIds]
    simp only [same]

theorem cell_commitAll (index : InvertedIndex) (commits : List DictionaryChunks.ChunkMap)
    (wordId : WordId) (fileId : FileId) :
    (index.commitAll commits).drained [] wordId fileId =
      index.drained (commits.flatMap DictionaryChunks.ChunkMap.tasks) wordId fileId := by
  have folded : ∀ chunks : DictionaryChunks,
      (commits.foldl DictionaryChunks.commitChunkMap chunks).cell wordId fileId =
        DictionaryChunks.addTasks wordId fileId (chunks.cell wordId fileId)
          (commits.flatMap DictionaryChunks.ChunkMap.tasks) := by
    induction commits with
    | nil => exact fun _ => rfl
    | cons first rest ih =>
        intro chunks
        rw [List.foldl_cons, ih, DictionaryChunks.cell_commitChunkMap, List.flatMap_cons,
          DictionaryChunks.addTasks_append]
  exact folded index.dictionaryChunks

/-- Two indexes that agree on every answer when nothing is pending. -/
theorem answer_eq_of_drained {left right : InvertedIndex} (leftFlat : left.dictionary = [])
    (rightFlat : right.dictionary = []) (wordIds : left.wordIds = right.wordIds)
    (same : ∀ wordId fileId, left.drained [] wordId fileId = right.drained [] wordId fileId)
    (word : Word) (fileId : FileId) : left.answer word fileId = right.answer word fileId := by
  rw [answer_eq_drainedAnswer leftFlat, answer_eq_drainedAnswer rightFlat, drainedAnswer,
    drainedAnswer, wordIds]
  simp only [same]

end InvertedIndex

namespace System

variable {oem : OemTable} {storage : CatalogStorage} {db : Database} {precountPostings : Bool}
  {s : System} {history : History} {thresholdPercent : ℚ} {schedule : List RaceAction}
  {final : CompactionRace}

/-- A finished race in a coherent, safe state preserves the index. -/
theorem Coherent.compactionPreserves (coherent : s.Coherent history)
    (safe : s.CompactionSafe thresholdPercent)
    (done : (CompactionRace.machine thresholdPercent).run s.race schedule = some final)
    (finished : final.Finished) : CompactionPreserves s.index s.commits final.index := by
  have flat := coherent.postings.flat
  have committedFlat : (s.index.commitAll s.commits).dictionary = [] := flat
  have nothing := CompactionRace.remaining_of_finished finished
  have answers : (∀ word fileId, final.index.answer word fileId =
      (s.index.commitAll s.commits).answer word fileId) ∧ final.index.wordIds.Bijective ∧
      ∃ bound, final.index.PostingsInvariant [] (· ∈ s.inFlight) history.expected bound := by
    rcases CompactionRace.race_invariant flat safe.1 done with before | after
    · have same : ∀ wordId fileId, final.index.drained [] wordId fileId =
          s.index.drained s.pendingTasks wordId fileId := by
        intro wordId fileId
        rw [← before.drained, nothing]
      refine ⟨?_, ?_, _, coherent.postings.of_drained before.wordIds before.wordRefs before.flat same⟩
      · refine InvertedIndex.answer_eq_of_drained before.flat committedFlat before.wordIds ?_
        intro wordId fileId
        rw [same, InvertedIndex.cell_commitAll]
        rfl
      · rw [before.wordIds]
        by_cases settled : s.pendingTasks = []
        · have knows := before.phase
          rw [CompactionRace.PhaseKnows, finished.1] at knows
          exact safe.2 (knows settled)
        · exact safe.2 fun renumbers => settled (safe.1 renumbers)
    · have settled := safe.1 after.renumbers
      have postings := coherent.postings
      rw [settled] at postings
      have resolve := postings.keptResolve
      have compacted := postings.compacted
      have same : ∀ wordId fileId, final.index.drained [] wordId fileId =
          (s.index.compacted s.index.rebuiltDictionary).drained [] wordId fileId := after.cells
      refine ⟨?_, ?_, _, compacted.of_drained after.wordIds after.wordRefs after.flat same⟩
      · intro word fileId
        have unchanged : (s.index.commitAll s.commits).answer word fileId = s.index.answer word fileId := by
          refine InvertedIndex.answer_eq_of_drained committedFlat flat rfl ?_ word fileId
          intro wordId other
          rw [InvertedIndex.cell_commitAll]
          exact congrArg (s.index.drained · wordId other) settled
        rw [unchanged, InvertedIndex.answer_eq_of_drained after.flat compacted.flat after.wordIds same,
          InvertedIndex.answer_compacted resolve]
      · rw [after.wordIds]
        exact InvertedIndex.bijective_compacted resolve
  obtain ⟨agree, bijective, bound, invariant⟩ := answers
  have postings : ∀ word, final.index.getPostingCopyByWord word =
      (s.index.commitAll s.commits).getPostingCopyByWord word :=
    fun word => InvertedIndex.getPostingCopyByWord_eq_of_answer (agree word)
  constructor
  case postings => exact postings
  case bijective => exact bijective
  case kept =>
    intro word present
    rw [← postings word] at present
    by_contra unknown
    rw [Option.not_isSome_iff_eq_none] at unknown
    exact present (by rw [InvertedIndex.getPostingCopyByWord, unknown])
  case references => exact invariant.references

/-- What a tame run keeps of the word table. -/
theorem Coherent.bijective_run {actions : List Action} {last : System × History}
    (coherent : s.Coherent history) (bijective : s.index.wordIds.Bijective)
    (tame : (monitored oem).Conforms (fun state action => state.1.Tame action) (s, history) actions)
    (done : (monitored oem).run (s, history) actions = some last) :
    last.1.Coherent last.2 ∧ last.1.index.wordIds.Bijective := by
  let invariant : System × History → Prop := fun state =>
    state.1.Coherent state.2 ∧ state.1.index.wordIds.Bijective
  have kept : ∀ state action after, invariant state → state.1.Tame action →
      (monitored oem).step state action = some after → invariant after := by
    rintro ⟨before, recorded⟩ action after ⟨known, table⟩ allowed taken
    obtain ⟨reached, stepped, rfl⟩ := Option.map_eq_some_iff.mp taken
    exact ⟨known.step allowed stepped, known.bijective_step allowed table stepped⟩
  have initial : invariant (s, history) := ⟨coherent, bijective⟩
  exact Machine.invariant_run kept initial tame done

/-- In every state of a tame run, from a database whose word rows are numbered without
gaps and repetitions, compaction preserves the index in every interleaving with the
posted commits, if none of their postings is pending when it renumbers words. -/
theorem compactionPreserves_of_settled {actions : List Action} {last : System × History}
    (resolves : db.PostingsResolve) (numbered : (WordIdManager.ofList db.wordList).Bijective)
    (started : start storage db precountPostings = some s)
    (tame : (monitored oem).Conforms (fun state action => state.1.Tame action)
      (s, s.loadedHistory) actions)
    (done : (monitored oem).run (s, s.loadedHistory) actions = some last)
    (settled : last.1.Renumbers thresholdPercent → last.1.pendingTasks = [])
    (raced : (CompactionRace.machine thresholdPercent).run last.1.race schedule = some final)
    (finished : final.Finished) : CompactionPreserves last.1.index last.1.commits final.index := by
  have table : s.index.wordIds.Bijective := by
    obtain ⟨index, loaded, rfl⟩ := Option.map_eq_some_iff.mp started
    rw [(Database.load_fields loaded).1]
    exact numbered
  obtain ⟨coherent, bijective⟩ := (coherent_start resolves started).bijective_run table tame done
  exact coherent.compactionPreserves ⟨settled, fun _ => bijective⟩ raced finished

/-- A word of a file disappears with a second update. -/
def disappearedWord : List Action :=
  listedUpdate "a".toList ⟨1, 8⟩ (Word.ofAscii "ANNA EVA") evaThenAnna ++
    pointUpdate "a".toList ⟨2, 4⟩ (Word.ofAscii "ANNA")

/-- A compaction of two registered words without other tasks. -/
def undisturbedCompaction : List RaceAction := List.replicate 7 .compact

theorem compactionPreserves_of_settled_disappearedWord :
    ∃ last final, (monitored .plain).run (emptyStart, emptyStart.loadedHistory) disappearedWord =
        some last ∧
      (CompactionRace.machine 0).run last.1.race undisturbedCompaction = some final ∧
      final.index.wordIds.size = 1 ∧ CompactionPreserves last.1.index last.1.commits final.index := by
  have computed : ((monitored .plain).run (emptyStart, emptyStart.loadedHistory)
      disappearedWord).any (fun last => decide (last.1.pendingTasks = []) &&
        ((CompactionRace.machine 0).run last.1.race undisturbedCompaction).any fun final =>
          decide (final.Finished ∧ final.index.wordIds.size = 1)) = true := by decide +kernel
  obtain ⟨last, done, facts⟩ := (Option.any_eq_true _ _).mp computed
  obtain ⟨noTasks, races⟩ := (Bool.and_eq_true _ _).mp facts
  obtain ⟨final, raced, outcome⟩ := (Option.any_eq_true _ _).mp races
  obtain ⟨finished, size⟩ := of_decide_eq_true outcome
  exact ⟨last, final, done, raced, size, compactionPreserves_of_settled postingsResolve_empty
    (by decide +kernel) started_emptyStart (by decide +kernel) done
    (fun _ => of_decide_eq_true noTasks) raced finished⟩

/-- The commit of another file is posted when the compaction starts. -/
def commitPosted : List Action :=
  disappearedWord ++ ([.enqueueFileUpdate "b".toList (some ⟨3, 4⟩), .runStrand .increasing,
    .runIndexing 0 (some (Word.ofAscii "ANNA")) (batchList .plain (Word.ofAscii "ANNA")),
    .runStrand .increasing] : List Action)

/-- The commit runs after the compaction, with the old number of its word. -/
def commitAfterCompaction : List RaceAction :=
  undisturbedCompaction ++ [.acquire 0, .write 0 0]

/-- The posting is added under a number that no longer belongs to its word. -/
theorem not_compactionPreserves_commitPosted :
    (monitored .plain).Conforms (fun state action => state.1.Tame action)
        (emptyStart, emptyStart.loadedHistory) commitPosted ∧
      ∃ last final, (monitored .plain).run (emptyStart, emptyStart.loadedHistory) commitPosted =
          some last ∧
        (CompactionRace.machine 0).run last.1.race commitAfterCompaction = some final ∧
        final.Finished ∧ ¬ CompactionPreserves last.1.index last.1.commits final.index := by
  refine ⟨by decide +kernel, ?_⟩
  have computed : ((monitored .plain).run (emptyStart, emptyStart.loadedHistory)
      commitPosted).any (fun last =>
        ((CompactionRace.machine 0).run last.1.race commitAfterCompaction).any fun final =>
          decide (final.Finished ∧ final.index.answer (Word.ofAscii "ANNA") 1 = none ∧
            (last.1.index.commitAll last.1.commits).answer (Word.ofAscii "ANNA") 1 = some 1)) =
        true := by decide +kernel
  obtain ⟨last, done, races⟩ := (Option.any_eq_true _ _).mp computed
  obtain ⟨final, raced, outcome⟩ := (Option.any_eq_true _ _).mp races
  obtain ⟨finished, lost, present⟩ := of_decide_eq_true outcome
  refine ⟨last, final, done, raced, finished, fun preserves => ?_⟩
  rw [InvertedIndex.answer, preserves.postings, ← InvertedIndex.answer, present] at lost
  cases lost

end System

end SearchEngine.Index
