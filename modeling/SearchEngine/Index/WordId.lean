import SearchEngine.Index.PostingList
import Mathlib.Data.List.GetD

/-!
# Word numbers

`WordIdManager` is the two-way dictionary between words and their numbers. The
field `sound` holds in every value the source can build: a looked-up number is
the position of its word in `id2word`. The converse can fail, because `load`
fills numbering gaps with empty strings and keeps the first of two equal words.
-/

namespace SearchEngine.Index

open SearchEngine.Lib

/-- The word number table of the index. -/
structure WordIdManager where
  word2id : SortedMap Word WordId
  id2word : List Word
  sound : ∀ {word wordId}, word2id.find? word = some wordId → id2word[wordId]? = some word

namespace WordIdManager

instance : Inhabited WordIdManager := ⟨⟨∅, [], by simp⟩⟩

/-- `WordIdManager::size`. -/
def size (ids : WordIdManager) : Nat := ids.id2word.length

/-- `WordIdManager::tryGet`. -/
def tryGet (ids : WordIdManager) (word : Word) : Option WordId := ids.word2id.find? word

/-- `WordIdManager::byId` on a number in range. -/
def byId (ids : WordIdManager) (wordId : WordId) : Option Word := ids.id2word[wordId]?

theorem byId_of_tryGet {ids : WordIdManager} {word : Word} {wordId : WordId}
    (found : ids.tryGet word = some wordId) : ids.byId wordId = some word :=
  ids.sound found

theorem lt_size_of_tryGet {ids : WordIdManager} {word : Word} {wordId : WordId}
    (found : ids.tryGet word = some wordId) : wordId < ids.size :=
  (List.getElem?_eq_some_iff.mp (ids.sound found)).1

/-- Distinct words have distinct numbers. -/
theorem tryGet_injective {ids : WordIdManager} {left right : Word} {wordId : WordId}
    (leftFound : ids.tryGet left = some wordId) (rightFound : ids.tryGet right = some wordId) :
    left = right :=
  Option.some.inj ((byId_of_tryGet leftFound).symm.trans (byId_of_tryGet rightFound))

/-- `try_emplace` and `push_back` for a word that is not listed. -/
def register (ids : WordIdManager) (word : Word) : WordIdManager where
  word2id := ids.word2id.insert word ids.size
  id2word := ids.id2word ++ [word]
  sound := by
    intro other wordId found
    rw [SortedMap.find?_insert] at found
    split at found
    · rename_i same
      subst same
      obtain rfl := Option.some.inj found
      simp [size]
    · have old := ids.sound found
      have bound := (List.getElem?_eq_some_iff.mp old).1
      rw [List.getElem?_append_left bound, old]

/-- `WordIdManager::getId`: the number of the word and the table afterwards. -/
def getId (ids : WordIdManager) (word : Word) : WordId × WordIdManager :=
  match ids.tryGet word with
  | some wordId => (wordId, ids)
  | none => (ids.size, ids.register word)

theorem tryGet_register (ids : WordIdManager) (word other : Word) :
    (ids.register word).tryGet other = if word = other then some ids.size else ids.tryGet other := by
  simp [tryGet, register]

@[simp] theorem size_register (ids : WordIdManager) (word : Word) :
    (ids.register word).size = ids.size + 1 := by
  simp [size, register]

/-- After `getId` the word has the returned number. -/
theorem tryGet_getId (ids : WordIdManager) (word : Word) :
    (ids.getId word).2.tryGet word = some (ids.getId word).1 := by
  unfold getId
  cases found : ids.tryGet word with
  | none => simp [tryGet_register]
  | some wordId => exact found

theorem tryGet_getId_of_ne {ids : WordIdManager} {word other : Word} (different : word ≠ other) :
    (ids.getId word).2.tryGet other = ids.tryGet other := by
  unfold getId
  cases ids.tryGet word with
  | none => simp [tryGet_register, different]
  | some wordId => rfl

/-- A listed word keeps its number. -/
theorem tryGet_getId_of_some {ids : WordIdManager} {word other : Word} {wordId : WordId}
    (found : ids.tryGet other = some wordId) : (ids.getId word).2.tryGet other = some wordId := by
  by_cases same : word = other
  · subst same
    simp [getId, found]
  · rw [tryGet_getId_of_ne same, found]

theorem size_le_size_getId (ids : WordIdManager) (word : Word) :
    ids.size ≤ (ids.getId word).2.size := by
  unfold getId
  cases ids.tryGet word <;> simp

/-- `getId` on each word of a list, from left to right. -/
def getIds (ids : WordIdManager) (words : List Word) : WordIdManager :=
  words.foldl (fun table word => (table.getId word).2) ids

/-- The words of a list that have no number yet. -/
def newWords (ids : WordIdManager) (words : List Word) : List Word :=
  words.filter fun word => (ids.tryGet word).isNone

/-- New words get the next numbers in the order of the list. -/
theorem id2word_getIds {words : List Word} (distinct : words.Nodup) (ids : WordIdManager) :
    (ids.getIds words).id2word = ids.id2word ++ ids.newWords words := by
  induction words generalizing ids with
  | nil => exact (List.append_nil _).symm
  | cons word rest ih =>
      obtain ⟨alone, distinct⟩ := List.nodup_cons.mp distinct
      have step : ids.getIds (word :: rest) = (ids.getId word).2.getIds rest := rfl
      rw [step, ih distinct]
      unfold newWords getId
      cases found : ids.tryGet word with
      | some wordId => simp [found]
      | none =>
          have others : rest.filter (fun other => ((ids.register word).tryGet other).isNone) =
              rest.filter fun other => (ids.tryGet other).isNone := by
            refine List.filter_congr fun other member => ?_
            rw [tryGet_register, if_neg]
            rintro rfl
            exact alone member
          have longer : (ids.register word).id2word = ids.id2word ++ [word] := rfl
          simp only [others, longer, List.append_assoc, List.filter_cons, found, Option.isNone_none, if_true,
            List.singleton_append]

/-- The numbers from the old size on are those of the new words. -/
theorem mem_zipIdx_newWords {words : List Word} (distinct : words.Nodup) {ids : WordIdManager} {word : Word}
    {wordId : WordId} (above : ids.size ≤ wordId) (listed : (ids.getIds words).byId wordId = some word) :
    (word, wordId) ∈ (ids.newWords words).zipIdx ids.size := by
  rw [byId, id2word_getIds distinct, List.getElem?_append_right above] at listed
  exact List.mk_mem_zipIdx_iff_le_and_getElem?_sub.mpr ⟨above, listed⟩

/-! ## Rebuilding from a word list -/

/-- `word2id.emplace(id2word[wid], wid)` for every number in turn. -/
def emplaceAll (words : List Word) : SortedMap Word WordId :=
  words.zipIdx.foldl (fun table entry => table.emplace entry.1 entry.2) ∅

theorem find?_emplaceAll_eq_some_iff {words : List Word} {word : Word} {wordId : WordId} :
    (emplaceAll words).find? word = some wordId ↔
      words[wordId]? = some word ∧ ∀ earlier < wordId, words[earlier]? ≠ some word := by
  have located : ∀ (list : List Word) (start index : Nat),
      SortedMap.findEntry word (list.zipIdx start) = some (start + index) ↔
        list[index]? = some word ∧ ∀ earlier < index, list[earlier]? ≠ some word := by
    intro list
    induction list with
    | nil => simp
    | cons first rest ih =>
        intro start index
        rw [List.zipIdx_cons, SortedMap.findEntry_cons]
        by_cases same : first = word
        · cases index with
          | zero => simp [same]
          | succ index =>
              have hit : (first :: rest)[0]? = some word := by simp [same]
              simp only [if_pos same, Option.some.injEq]
              constructor
              · omega
              · intro none
                exact absurd hit (none.2 0 (by omega))
        · rw [if_neg same]
          cases index with
          | zero =>
              have below : SortedMap.findEntry word (rest.zipIdx (start + 1)) ≠ some start := by
                intro found
                have listed := SortedMap.mem_of_findEntry_eq_some found
                have bound := (List.mem_zipIdx listed).1
                omega
              simp [same, below]
          | succ index =>
              rw [Nat.add_comm index 1, ← Nat.add_assoc, ih, Nat.add_comm 1 index]
              constructor
              · rintro ⟨listed, first'⟩
                refine ⟨by simpa using listed, fun earlier less => ?_⟩
                cases earlier with
                | zero => simpa using same
                | succ earlier => simpa using first' earlier (by omega)
              · rintro ⟨listed, first'⟩
                refine ⟨by simpa using listed, fun earlier less => ?_⟩
                simpa using first' (earlier + 1) (by omega)
  rw [emplaceAll, SortedMap.find?_foldl_emplace]
  simpa using located words 0 wordId

/-- The table `load` builds: the first number of each listed word. -/
def ofList (words : List Word) : WordIdManager where
  word2id := emplaceAll words
  id2word := words
  sound := fun found => (find?_emplaceAll_eq_some_iff.mp found).1

theorem tryGet_ofList_eq_some_iff {words : List Word} {word : Word} {wordId : WordId} :
    (ofList words).tryGet word = some wordId ↔
      words[wordId]? = some word ∧ ∀ earlier < wordId, words[earlier]? ≠ some word :=
  find?_emplaceAll_eq_some_iff

/-- `new_word2id[word] = newWid` for every number in turn. -/
def assignAll (words : List Word) : SortedMap Word WordId :=
  words.zipIdx.foldl (fun table entry => table.insert entry.1 entry.2) ∅

/-- The table `compact` builds: the last number of each listed word. -/
def renumbered (words : List Word) : WordIdManager where
  word2id := assignAll words
  id2word := words
  sound := by
    have folded : ∀ (entries : List (Word × WordId)) (start : SortedMap Word WordId),
        (∀ entry ∈ entries, words[entry.2]? = some entry.1) →
        (∀ {word wordId}, start.find? word = some wordId → words[wordId]? = some word) →
        ∀ {word wordId}, (entries.foldl (fun table entry => table.insert entry.1 entry.2)
          start).find? word = some wordId → words[wordId]? = some word := by
      intro entries
      induction entries with
      | nil => exact fun _ _ inside _ _ found => inside found
      | cons entry rest ih =>
          intro start listed inside
          refine ih _ (fun later member => listed later (List.mem_cons_of_mem _ member)) ?_
          intro word wordId found
          rw [SortedMap.find?_insert] at found
          split at found
          · rename_i same
            rw [← Option.some.inj found, ← same]
            exact listed entry List.mem_cons_self
          · exact inside found
    intro word wordId found
    exact folded words.zipIdx ∅ (fun entry member => List.mem_zipIdx_iff_getElem?.mp member) (by simp)
      found

/-- The table is a bijection between words and `0 .. size - 1`. -/
def Bijective (ids : WordIdManager) : Prop :=
  ∀ wordId word, ids.byId wordId = some word → ids.tryGet word = some wordId

instance (ids : WordIdManager) : Decidable ids.Bijective :=
  decidable_of_iff (∀ wordId : Fin ids.size, ids.tryGet (ids.id2word.get wordId) = some wordId.val) <| by
    constructor
    · intro every wordId word listed
      obtain ⟨bound, rfl⟩ := List.getElem?_eq_some_iff.mp listed
      exact every ⟨wordId, bound⟩
    · intro bijective wordId
      exact bijective wordId _ (List.getElem?_eq_getElem wordId.isLt)

/-- A new word takes the next number. -/
theorem Bijective.getId {ids : WordIdManager} (bijective : ids.Bijective) (word : Word) :
    (ids.getId word).2.Bijective := by
  unfold WordIdManager.getId
  cases found : ids.tryGet word with
  | some wordId => exact bijective
  | none =>
      intro wordId other listed
      rw [tryGet_register]
      by_cases inside : wordId < ids.size
      · have old : ids.byId wordId = some other := by
          rw [← listed]
          exact (List.getElem?_append_left inside).symm
        have number := bijective wordId other old
        have different : word ≠ other := by
          rintro rfl
          rw [found] at number
          cases number
        rw [if_neg different, number]
      · have last : (ids.id2word ++ [word])[wordId]? = some other := listed
        rw [List.getElem?_append_right (not_lt.mp inside)] at last
        obtain ⟨bound, rfl⟩ := List.getElem?_eq_some_iff.mp last
        have sameNumber : wordId = ids.size :=
          Nat.le_antisymm (Nat.sub_eq_zero_iff_le.mp (Nat.lt_one_iff.mp bound)) (not_lt.mp inside)
        simp [sameNumber]

theorem Bijective.getIds {ids : WordIdManager} (bijective : ids.Bijective) (words : List Word) :
    (ids.getIds words).Bijective := by
  induction words generalizing ids with
  | nil => exact bijective
  | cons word rest ih => exact ih (bijective.getId word)

theorem bijective_renumbered {words : List Word} (distinct : words.Nodup) :
    (renumbered words).Bijective := by
  have assigned : ∀ (start : Nat) (list : List Word) (table : SortedMap Word WordId), list.Nodup →
      ∀ index word, list[index]? = some word →
        ((list.zipIdx start).foldl (fun map entry => map.insert entry.1 entry.2) table).find? word =
          some (start + index) := by
    have untouched : ∀ (start : Nat) (list : List Word) (table : SortedMap Word WordId) (word : Word),
        word ∉ list →
        ((list.zipIdx start).foldl (fun map entry => map.insert entry.1 entry.2) table).find? word =
          table.find? word := by
      intro start list
      induction list generalizing start with
      | nil => exact fun _ _ _ => rfl
      | cons first rest ih =>
          intro table word absent
          rw [List.mem_cons, not_or] at absent
          rw [List.zipIdx_cons, List.foldl_cons, ih _ _ _ absent.2, SortedMap.find?_insert,
            if_neg (Ne.symm absent.1)]
    intro start list
    induction list generalizing start with
    | nil => simp
    | cons first rest ih =>
        intro table nodup index word listed
        obtain ⟨fresh, restNodup⟩ := List.nodup_cons.mp nodup
        rw [List.zipIdx_cons, List.foldl_cons]
        cases index with
        | zero =>
            obtain rfl : first = word := by simpa using listed
            rw [untouched _ _ _ _ fresh, SortedMap.find?_insert, if_pos rfl]
            rfl
        | succ index =>
            rw [ih (start + 1) _ restNodup index word (by simpa using listed), Nat.add_assoc,
              Nat.add_comm 1]
  intro wordId word listed
  have found := assigned 0 words ∅ distinct wordId word listed
  rwa [Nat.zero_add] at found

end WordIdManager

end SearchEngine.Index
